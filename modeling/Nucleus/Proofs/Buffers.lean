import Mathlib.Data.List.Nodup
import Nucleus.UserMemory

/-!
# Nucleus.Proofs.Buffers

What the check of a buffer decides. The end of a buffer is a product and a sum of words, and where
one of them is no word the buffer is refused for it; so the answer is that of exact integers: a
buffer that is not empty is accepted when it is aligned, is not at zero and ends in the user half.
The words of such a buffer lie where exact arithmetic puts them, all of them in the user half, and
reading and writing it touches these and no others.

* `IsUserBuffer`: the condition, in exact integers.
* `BufferError.Names`: what is wrong with a buffer that is refused.
* `UserMemory.touched`: the addresses of the words of a buffer.
* `load_eq_map`, `store_eq_pokeAll`: reading and writing, as what happens at these addresses.
* `checkBuffer_decides`: the answers of the check, and what an accepted buffer is.
-/

namespace Nucleus

variable {addr words : Word} {n : Nat}

/-- A buffer of `n` words is not at zero, is aligned, and ends in the user half. -/
structure IsUserBuffer (addr : Word) (n : Nat) : Prop where
  nonzero : addr ≠ 0
  aligned : 8 ∣ addr.toNat
  end_le : addr.toNat + 8 * n ≤ 0x800000000000

/-- A buffer of `n` words has the defect that the error reports. -/
def BufferError.Names (e : BufferError) (addr : Word) (n : Nat) : Prop :=
  match e with
  | badAddress start => start = addr ∧
      (addr = 0 ∨ ¬ 8 ∣ addr.toNat ∨
        0x800000000000 < addr.toNat + 8 * n ∧ addr.toNat + 8 * n < 0x10000000000000000)
  | overflow start => start = addr ∧
      addr ≠ 0 ∧ 8 ∣ addr.toNat ∧ 0x10000000000000000 ≤ addr.toNat + 8 * n

/-! ### The check -/

theorem toNat_wordBytes : wordBytes.toNat = 8 :=
  rfl

theorem bufferEnd?_eq_none_iff :
    bufferEnd? addr words = none ↔ 0x10000000000000000 ≤ addr.toNat + 8 * words.toNat := by
  unfold bufferEnd?
  cases h : Word.mul? words wordBytes with
  | none =>
    have hbytes := Word.mul?_eq_none_iff.1 h
    rw [toNat_wordBytes] at hbytes
    exact iff_of_true rfl (by omega)
  | some bytes =>
    have hbytes := Word.mul?_eq_some_iff.1 h
    rw [toNat_wordBytes] at hbytes
    show Word.add? addr bytes = none ↔ _
    rw [Word.add?_eq_none_iff]
    omega

theorem toNat_of_bufferEnd? {last : Word} (h : bufferEnd? addr words = some last) :
    last.toNat = addr.toNat + 8 * words.toNat := by
  unfold bufferEnd? at h
  split at h
  · cases h
  · rename_i bytes hbytes
    have hlast := Word.add?_eq_some_iff.1 h
    have hspan := Word.mul?_eq_some_iff.1 hbytes
    rw [toNat_wordBytes] at hspan
    omega

theorem mod_wordBytes_eq_zero_iff : addr % wordBytes = 0 ↔ 8 ∣ addr.toNat := by
  rw [← UInt64.toNat_inj, UInt64.toNat_mod, toNat_wordBytes, Nat.dvd_iff_mod_eq_zero]
  rfl

/-- The answers of the check for a buffer that is not empty, each with what is behind it. -/
theorem checkBuffer_cases (hwords : words ≠ 0) :
    IsUserBuffer addr words.toNat ∧ checkBuffer addr words = .ok () ∨
      ∃ e, e.Names addr words.toNat ∧ checkBuffer addr words = .error e := by
  have hpos : words.toNat ≠ 0 := fun h => hwords (UInt64.toNat_inj.1 h)
  unfold checkBuffer
  rw [if_neg hwords]
  split
  · rename_i hstart
    rw [Ne, mod_wordBytes_eq_zero_iff] at hstart
    exact .inr ⟨.badAddress addr, ⟨rfl, hstart.imp_right .inl⟩, rfl⟩
  · rename_i hstart
    rw [not_or, not_not, mod_wordBytes_eq_zero_iff] at hstart
    obtain ⟨hzero, haligned⟩ := hstart
    cases hend : bufferEnd? addr words with
    | none =>
      have hover := bufferEnd?_eq_none_iff.1 hend
      exact .inr ⟨.overflow addr, ⟨rfl, hzero, haligned, hover⟩, rfl⟩
    | some last =>
      have hlast := toNat_of_bufferEnd? hend
      have hlt := Word.toNat_lt last
      have huser : userEnd.toNat = 0x800000000000 := rfl
      simp only [UInt64.le_iff_toNat_le, UInt64.lt_iff_toNat_lt, huser]
      split
      · rename_i hbehind
        exact .inr ⟨.badAddress addr, ⟨rfl, .inr (.inr (by omega))⟩, rfl⟩
      · rename_i hbehind
        exact .inl ⟨⟨hzero, haligned, by omega⟩, rfl⟩

theorem IsUserBuffer.not_names {e : BufferError} (h : IsUserBuffer addr n) : ¬ e.Names addr n := by
  have hend := h.end_le
  cases e with
  | badAddress start =>
    rintro ⟨-, hzero | hmisaligned | hbehind⟩
    · exact h.nonzero hzero
    · exact hmisaligned h.aligned
    · omega
  | overflow start =>
    rintro ⟨-, -, -, hover⟩
    omega

theorem BufferError.Names.not_overflow {start start' : Word}
    (h : (BufferError.badAddress start).Names addr n) : ¬ (overflow start').Names addr n := by
  rintro ⟨-, hzero, haligned, hover⟩
  obtain ⟨-, hstart | hmisaligned | ⟨-, hlt⟩⟩ := h
  · exact hzero hstart
  · exact hmisaligned haligned
  · omega

/-- A buffer has no two defects. -/
theorem BufferError.Names.eq {e e' : BufferError} (h : e.Names addr n) (h' : e'.Names addr n) :
    e = e' := by
  cases e with
  | badAddress start =>
    cases e' with
    | badAddress start' => rw [h.1, h'.1]
    | overflow start' => exact absurd h' h.not_overflow
  | overflow start =>
    cases e' with
    | badAddress start' => exact absurd h h'.not_overflow
    | overflow start' => rw [h.1, h'.1]

theorem checkBuffer_empty (addr : Word) : checkBuffer addr 0 = .ok () :=
  rfl

theorem checkBuffer_eq_ok_iff :
    checkBuffer addr words = .ok () ↔ words = 0 ∨ IsUserBuffer addr words.toNat := by
  by_cases hwords : words = 0
  · subst hwords
    exact iff_of_true (checkBuffer_empty addr) (.inl rfl)
  · rw [or_iff_right hwords]
    obtain ⟨hbuffer, h⟩ | ⟨e, hnames, h⟩ := checkBuffer_cases hwords
    · exact iff_of_true h hbuffer
    · rw [h]
      exact iff_of_false nofun fun hbuffer => hbuffer.not_names hnames

theorem checkBuffer_eq_error_iff {e : BufferError} :
    checkBuffer addr words = .error e ↔ words ≠ 0 ∧ e.Names addr words.toNat := by
  by_cases hwords : words = 0
  · subst hwords
    rw [checkBuffer_empty]
    exact iff_of_false nofun fun h => h.1 rfl
  · rw [and_iff_right hwords]
    obtain ⟨hbuffer, h⟩ | ⟨e', hnames, h⟩ := checkBuffer_cases hwords
    · rw [h]
      exact iff_of_false nofun hbuffer.not_names
    · rw [h]
      exact ⟨fun he => Except.error.inj he ▸ hnames, fun he => by rw [he.eq hnames]⟩

/-- A buffer that is accepted is one, if there is a word in it. -/
theorem isUserBuffer_of_checkBuffer (h : checkBuffer addr words = .ok ()) {i : Nat}
    (hi : i < words.toNat) : IsUserBuffer addr words.toNat := by
  refine (checkBuffer_eq_ok_iff.1 h).resolve_left ?_
  rintro rfl
  exact absurd hi (Nat.not_lt_zero i)

/-! ### The words of a buffer -/

namespace UserMemory

variable {m : UserMemory} {a : Word} {ws : List Word}

/-- The address of a word of a buffer. -/
def wordAt (addr : Word) (i : Nat) : Word :=
  addr + wordBytes * .ofNat i

/-- The addresses of the words of a buffer. -/
def touched (addr : Word) (n : Nat) : List Word :=
  (List.range n).map (wordAt addr)

/-- The memory after words were written at some addresses, in their order. -/
def pokeAll (m : UserMemory) (ws : List (Word × Word)) : UserMemory :=
  ws.foldl (fun m w => m.poke w.1 w.2) m

@[simp] theorem length_touched (addr : Word) (n : Nat) : (touched addr n).length = n := by
  simp [touched]

theorem wordAt_zero (addr : Word) : wordAt addr 0 = addr :=
  UInt64.add_zero addr

theorem wordAt_succ (addr : Word) (i : Nat) :
    wordAt addr (i + 1) = wordAt (addr + wordBytes) i := by
  unfold wordAt
  rw [UInt64.ofNat_add, UInt64.mul_add, UInt64.add_comm (wordBytes * _), UInt64.add_assoc]
  rfl

theorem touched_succ (addr : Word) (n : Nat) :
    touched addr (n + 1) = addr :: touched (addr + wordBytes) n := by
  unfold touched
  rw [List.range_succ_eq_map, List.map_cons, List.map_map, wordAt_zero]
  exact congrArg _ (List.map_congr_left fun i _ => wordAt_succ addr i)

/-- Reading looks at the words of the buffer, one after the other. -/
theorem load_eq_map (m : UserMemory) (n : Nat) :
    ∀ addr : Word, m.load addr n = (touched addr n).map m.peek := by
  induction n with
  | zero => exact fun _ => rfl
  | succ n ih =>
    intro addr
    rw [touched_succ, List.map_cons, ← ih]
    rfl

/-- Writing puts the words in the places of the buffer, one after the other. -/
theorem store_eq_pokeAll (ws : List Word) :
    ∀ (m : UserMemory) (addr : Word),
      m.store addr ws = m.pokeAll ((touched addr ws.length).zip ws) := by
  induction ws with
  | nil => exact fun _ _ => rfl
  | cons w rest ih =>
    intro m addr
    rw [List.length_cons, touched_succ, List.zip_cons_cons]
    exact ih (m.poke addr w) (addr + wordBytes)

/-- In the user half no address of a word wraps. -/
theorem toNat_wordAt (h : IsUserBuffer addr n) {i : Nat} (hi : i < n) :
    (wordAt addr i).toNat = addr.toNat + 8 * i := by
  have hend := h.end_le
  have hlt : i < 0x10000000000000000 := by omega
  have hword : (UInt64.ofNat i).toNat = i := UInt64.toNat_ofNat_of_lt' hlt
  unfold wordAt
  rw [UInt64.toNat_add, UInt64.toNat_mul, toNat_wordBytes, hword]
  omega

/-- Each word of a buffer is a buffer. -/
theorem isUserBuffer_wordAt (h : IsUserBuffer addr n) {i : Nat} (hi : i < n) :
    IsUserBuffer (wordAt addr i) 1 := by
  have hword := toNat_wordAt h hi
  have hend := h.end_le
  have haligned := h.aligned
  refine ⟨fun hzero => h.nonzero (UInt64.toNat_inj.1 ?_), by omega, by omega⟩
  rw [hzero] at hword
  have : (0 : Word).toNat = 0 := rfl
  omega

theorem mem_touched : a ∈ touched addr n ↔ ∃ i < n, wordAt addr i = a := by
  simp [touched]

theorem nodup_touched (h : IsUserBuffer addr n) : (touched addr n).Nodup := by
  unfold touched
  refine List.Nodup.map_on (fun i hi j hj hij => ?_) List.nodup_range
  have hwords := congrArg UInt64.toNat hij
  rw [toNat_wordAt h (List.mem_range.1 hi), toNat_wordAt h (List.mem_range.1 hj)] at hwords
  omega

end UserMemory

open UserMemory in
/-- **The check of a buffer decides in exact arithmetic.** It accepts a buffer just when it is
empty, or is aligned, not at zero, and ends in the user half. Any other buffer is refused with the
error that names its defect: one whose end is no word overflows, if nothing is wrong with where it
starts, and all others are bad addresses. What reading and writing an accepted buffer touches are
its words, one after the other, and each of them lies where exact arithmetic puts it: not at zero,
aligned, and in the user half to its end. -/
theorem checkBuffer_decides (addr words : Word) :
    (checkBuffer addr words = .ok () ↔ words = 0 ∨ IsUserBuffer addr words.toNat) ∧
    (∀ e, checkBuffer addr words = .error e ↔ words ≠ 0 ∧ e.Names addr words.toNat) ∧
    (checkBuffer addr words = .ok () →
      (∀ m : UserMemory, m.read addr words = .ok ((touched addr words.toNat).map m.peek)) ∧
      (∀ (m : UserMemory) (ws : List Word), ws.length = words.toNat →
        m.write addr ws = .ok (m.pokeAll ((touched addr words.toNat).zip ws))) ∧
      ∀ i < words.toNat, (touched addr words.toNat)[i]? = some (wordAt addr i) ∧
        (wordAt addr i).toNat = addr.toNat + 8 * i ∧ IsUserBuffer (wordAt addr i) 1) := by
  refine ⟨checkBuffer_eq_ok_iff, fun e => checkBuffer_eq_error_iff, fun h => ⟨?_, ?_, ?_⟩⟩
  · intro m
    unfold UserMemory.read
    rw [h, load_eq_map]
  · intro m ws hlength
    unfold UserMemory.write
    rw [hlength, UInt64.ofNat_toNat, h, store_eq_pokeAll, hlength]
  · intro i hi
    have hbuffer := isUserBuffer_of_checkBuffer h hi
    exact ⟨by simp [touched, hi], toNat_wordAt hbuffer hi, isUserBuffer_wordAt hbuffer hi⟩

/-- The last two words of the user half. -/
theorem checkBuffer_decides_last :
    checkBuffer 0x7FFFFFFFFFF0 2 = .ok () ∧
    (UserMemory.touched 0x7FFFFFFFFFF0 2)[1]? = some (UserMemory.wordAt 0x7FFFFFFFFFF0 1) ∧
    (UserMemory.wordAt 0x7FFFFFFFFFF0 1).toNat = 0x7FFFFFFFFFF8 ∧
    IsUserBuffer (UserMemory.wordAt 0x7FFFFFFFFFF0 1) 1 := by
  have h : checkBuffer 0x7FFFFFFFFFF0 2 = .ok () := rfl
  obtain ⟨hword, haddr, hbuffer⟩ :=
    ((checkBuffer_decides 0x7FFFFFFFFFF0 2).2.2 h).2.2 1 (by decide)
  exact ⟨h, hword, haddr, hbuffer⟩

end Nucleus
