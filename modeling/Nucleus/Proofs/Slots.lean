import Mathlib.Algebra.Order.Ring.Int
import Mathlib.Data.Int.ConditionallyCompleteOrder
import Mathlib.Order.CompletePartialOrder
import Mathlib.Order.Interval.Set.Disjoint
import Mathlib.Tactic.Linarith
import Mathlib.Tactic.Ring
import Nucleus.Proofs.Frames
import Nucleus.Proofs.Validation

/-!
# Nucleus.Proofs.Slots

Where an accepted configuration puts the stacks of its processes. The arithmetic of a slot is exact
for every identifier, since the check has counted one slot more than there are processes, and the
slots of two processes lie apart. The check is about spans, though, not about addresses: it does not
ask whether a slot starts at one, and a process whose slot does not cannot be created.

* `StackMap.userStack?_eq_some_iff`, `kernelStack?_eq_some_iff`: the slots, in exact integers.
* `StackMap.Houses`: where the two slots of a process are, and within what bounds.
* `Config.houses_of_validate`: every process of an accepted configuration has its slots.
* `slots_disjoint`: they are its own.
* `allocate_of_validate`: which processes get an address space, and in which half their stack is.
-/

namespace Nucleus

/-! ### Slots of a map -/

namespace StackMap

variable {m : StackMap} {id i j : ProcessId} {w user kernel user' kernel' : Word}

theorem userStack?_eq_some_iff :
    m.userStack? id = some w ↔
      1 ≤ id.toNat ∧ w.toNat + (id.toNat - 1) * m.userSize.toNat = m.userTop.toNat := by
  have hone : (1 : Word).toNat = 1 := rfl
  unfold userStack?
  cases h : Word.sub? id 1 with
  | none =>
    have hid := Word.sub?_eq_none_iff.1 h
    exact iff_of_false nofun (by omega)
  | some above =>
    have habove : above.toNat = id.toNat - 1 ∧ 1 ≤ id.toNat := by
      have := Word.sub?_eq_some_iff.1 h
      omega
    rw [← habove.1, and_iff_right habove.2]
    simp only
    cases hoff : Word.mul? above m.userSize with
    | none =>
      have hspan := Word.mul?_eq_none_iff.1 hoff
      have htop := Word.toNat_lt m.userTop
      exact iff_of_false nofun (by omega)
    | some offset =>
      show Word.sub? m.userTop offset = some w ↔ _
      rw [Word.sub?_eq_some_iff, Word.mul?_eq_some_iff.1 hoff, Nat.add_comm]

theorem kernelStack?_eq_some_iff :
    m.kernelStack? id = some w ↔
      id.toNat + 1 < 0x10000000000000000 ∧
        w.toNat = m.kernelBase.toNat + (id.toNat + 1) * m.kernelSize.toNat := by
  have hone : (1 : Word).toNat = 1 := rfl
  unfold kernelStack?
  cases h : Word.add? id 1 with
  | none =>
    have hid := Word.add?_eq_none_iff.1 h
    exact iff_of_false nofun (by omega)
  | some slots =>
    have hslots : slots.toNat = id.toNat + 1 := by rw [Word.add?_eq_some_iff.1 h, hone]
    rw [← hslots, and_iff_right (Word.toNat_lt slots)]
    simp only
    cases hoff : Word.mul? slots m.kernelSize with
    | none =>
      have hspan := Word.mul?_eq_none_iff.1 hoff
      have hw := Word.toNat_lt w
      exact iff_of_false nofun (by omega)
    | some offset =>
      show Word.add? m.kernelBase offset = some w ↔ _
      rw [Word.add?_eq_some_iff, Word.mul?_eq_some_iff.1 hoff]

theorem exists_userStack (hpos : 1 ≤ id.toNat)
    (h : (id.toNat - 1) * m.userSize.toNat ≤ m.userTop.toNat) : ∃ w, m.userStack? id = some w := by
  have htop := Word.toNat_lt m.userTop
  refine ⟨.ofNat (m.userTop.toNat - (id.toNat - 1) * m.userSize.toNat),
    userStack?_eq_some_iff.2 ⟨hpos, ?_⟩⟩
  rw [UInt64.toNat_ofNat_of_lt' (by show _ < 2 ^ 64; omega), Nat.sub_add_cancel h]

theorem exists_kernelStack (hid : id.toNat + 1 < 0x10000000000000000)
    (h : m.kernelBase.toNat + (id.toNat + 1) * m.kernelSize.toNat < 0x10000000000000000) :
    ∃ w, m.kernelStack? id = some w :=
  ⟨.ofNat _, kernelStack?_eq_some_iff.2 ⟨hid, UInt64.toNat_ofNat_of_lt' h⟩⟩

/-- The addresses of a slot: so many as its size, below the one that names it. -/
def slot (size top : Word) : Set ℤ :=
  Set.Ico (top.toNat - size.toNat) top.toNat

/-- The two slots of a process exist, are where exact arithmetic puts them, and keep a slot's
distance from zero and from the base of the kernel stacks. -/
structure Houses (m : StackMap) (id : ProcessId) (user kernel : Word) : Prop where
  userStack : m.userStack? id = some user
  kernelStack : m.kernelStack? id = some kernel
  user_eq : (user.toNat : ℤ) = m.userTop.toNat - (id.toNat - 1) * m.userSize.toNat
  kernel_eq : (kernel.toNat : ℤ) = m.kernelBase.toNat + (id.toNat + 1) * m.kernelSize.toNat
  user_start : (m.userSize.toNat : ℤ) ≤ user.toNat - m.userSize.toNat
  user_end : (user.toNat : ℤ) ≤ m.userTop.toNat
  kernel_start : (m.kernelBase.toNat + m.kernelSize.toNat : ℤ) ≤ kernel.toNat - m.kernelSize.toNat
  kernel_end : (kernel.toNat : ℤ) ≤ 2 ^ 64 - 1

/-- A whole slot is left below the user stack, and the kernel stack ends at a word. -/
theorem exists_houses (hpos : 1 ≤ id.toNat) (hid : id.toNat + 1 < 0x10000000000000000)
    (huser : (id.toNat + 1) * m.userSize.toNat ≤ m.userTop.toNat)
    (hkernel : m.kernelBase.toNat + (id.toNat + 1) * m.kernelSize.toNat < 0x10000000000000000) :
    ∃ user kernel, m.Houses id user kernel := by
  obtain ⟨n, hn⟩ : ∃ n, id.toNat = n + 1 := ⟨id.toNat - 1, by omega⟩
  have hspan : ∀ size, (id.toNat + 1) * size = n * size + 2 * size := fun size => by
    rw [hn, ← Nat.add_mul]
  rw [hspan] at huser
  obtain ⟨user, hu⟩ : ∃ w, m.userStack? id = some w := exists_userStack hpos (by
    rw [hn, Nat.add_sub_cancel]
    omega)
  obtain ⟨kernel, hk⟩ : ∃ w, m.kernelStack? id = some w := exists_kernelStack hid hkernel
  have hueq := (userStack?_eq_some_iff.1 hu).2
  have hkeq := (kernelStack?_eq_some_iff.1 hk).2
  have hlt := Word.toNat_lt kernel
  rw [hn, Nat.add_sub_cancel] at hueq
  rw [hspan] at hkeq
  refine ⟨user, kernel, hu, hk, ?_, ?_, ?_, ?_, ?_, ?_⟩
  · rw [← hueq, hn]
    push_cast
    ring
  · rw [hkeq, hn]
    push_cast
    ring
  all_goals omega

/-- A process further on has its user stack below the slots of those before it. -/
theorem Houses.disjoint_user (hi : m.Houses i user kernel) (hj : m.Houses j user' kernel')
    (hij : i.toNat < j.toNat) : Disjoint (slot m.userSize user) (slot m.userSize user') := by
  have hspan : (i.toNat : ℤ) * m.userSize.toNat ≤ (j.toNat - 1) * m.userSize.toNat :=
    mul_le_mul_of_nonneg_right (by omega) (Int.natCast_nonneg _)
  have hbelow : (user'.toNat : ℤ) ≤ user.toNat - m.userSize.toNat := by
    rw [hi.user_eq, hj.user_eq]
    linarith
  exact Set.Ico_disjoint_Ico.2 (min_le_of_right_le (le_max_of_le_left hbelow))

/-- A process further on has its kernel stack above the slots of those before it. -/
theorem Houses.disjoint_kernel (hi : m.Houses i user kernel) (hj : m.Houses j user' kernel')
    (hij : i.toNat < j.toNat) :
    Disjoint (slot m.kernelSize kernel) (slot m.kernelSize kernel') := by
  have hspan : ((i.toNat : ℤ) + 1) * m.kernelSize.toNat ≤ j.toNat * m.kernelSize.toNat :=
    mul_le_mul_of_nonneg_right (by omega) (Int.natCast_nonneg _)
  have habove : (kernel.toNat : ℤ) ≤ kernel'.toNat - m.kernelSize.toNat := by
    rw [hi.kernel_eq, hj.kernel_eq]
    linarith
  exact Set.Ico_disjoint_Ico.2 (min_le_of_left_le (le_max_of_le_right habove))

end StackMap

/-! ### Slots of an accepted configuration -/

namespace Config

variable {c : Config} {id i j : ProcessId}

/-- The slot that is counted beyond the processes leaves room for a whole one below the last user
stack, and makes up for the slot of process 0 among the kernel stacks. -/
theorem houses_of_validate (hc : c.validate = .ok ()) (hpos : 1 ≤ id.toNat)
    (hid : id.toNat ≤ c.maxProcesses.toNat) :
    ∃ user kernel, c.stackMap.Houses id user kernel := by
  obtain ⟨hp, hf⟩ := validate_eq_ok_iff.1 hc
  have hspan : ∀ size, (id.toNat + 1) * size ≤ (c.maxProcesses.toNat + 1) * size := fun size =>
    Nat.mul_le_mul_right size (by omega)
  have hslots := hf.slots_lt hp
  exact StackMap.exists_houses hpos (by omega) ((hspan _).trans hf.user)
    ((Nat.add_le_add_left (hspan _) _).trans_lt hf.kernel)

/-- **Stack slots never overlap.** Of two processes that an accepted configuration allows, both have
their stacks where exact arithmetic puts them: the user slots start at a slot's size or above and
end at the top of the user stacks or below, the kernel slots start one slot above the base of the
kernel stacks or higher and end with the greatest word or before. Neither slot of one process meets
that of the other. -/
theorem slots_disjoint (hc : c.validate = .ok ()) (hpos : 1 ≤ i.toNat) (hij : i.toNat < j.toNat)
    (hj : j.toNat ≤ c.maxProcesses.toNat) :
    ∃ user kernel user' kernel',
      c.stackMap.Houses i user kernel ∧ c.stackMap.Houses j user' kernel' ∧
      Disjoint (StackMap.slot c.userStackSize user) (StackMap.slot c.userStackSize user') ∧
      Disjoint (StackMap.slot c.kernelStackSize kernel)
        (StackMap.slot c.kernelStackSize kernel') := by
  obtain ⟨user, kernel, h⟩ := houses_of_validate hc hpos (hij.le.trans hj)
  obtain ⟨user', kernel', h'⟩ := houses_of_validate hc (hpos.trans hij.le) hj
  exact ⟨user, kernel, user', kernel', h, h', h.disjoint_user h' hij, h.disjoint_kernel h' hij⟩

/-- As many processes as there can be, in slots of a single byte that fill all addresses. -/
def crowded : Config where
  maxProcesses := 0xFFFFFFFFFFFFFFFE
  timerFrequency := 1
  timeSlice := 1
  eventQueueCapacity := 1
  inboxCapacity := 1
  irqLines := 0
  userStackTop := Word.greatest
  userStackSize := 1
  kernelStackBase := 0
  kernelStackSize := 1

/-- The first and the last process of a crowded kernel. -/
theorem slots_disjoint_crowded :
    crowded.validate = .ok () ∧
    ∃ user kernel user' kernel',
      crowded.stackMap.Houses 1 user kernel ∧
      crowded.stackMap.Houses 0xFFFFFFFFFFFFFFFE user' kernel' ∧
      Disjoint (StackMap.slot 1 user) (StackMap.slot 1 user') ∧
      Disjoint (StackMap.slot 1 kernel) (StackMap.slot 1 kernel') :=
  ⟨rfl, slots_disjoint rfl (by decide) (by decide) (by decide)⟩

end Config

/-! ### Address spaces -/

namespace VirtAddr

variable {w : Word} {a : VirtAddr}

theorem ofWord?_of_canonical (h : IsCanonical w) : ofWord? w = some ⟨w, h⟩ :=
  dif_pos h

/-- An address is its word or has all the bits from the 48th on. -/
theorem word_of_ofWord? (h : ofWord? w = some a) :
    a.word = w ∧ IsCanonical w ∨
      0x800000000000 ≤ w.toNat ∧ a.word.toNat = w.toNat + 0xFFFF000000000000 := by
  unfold ofWord? at h
  split at h
  · rename_i hcan
    cases h
    exact .inl ⟨rfl, hcan⟩
  · rename_i hcan
    split at h
    · rename_i hlt
      unfold IsCanonical at hcan
      rw [← Option.some.inj h]
      exact .inr ⟨by omega, toNat_extend hlt⟩
    · cases h

theorem toNat_userEnd : userEnd.toNat = 0x800000000000 :=
  rfl

/-- The addresses of the user half are the words below its end: a word that has to be extended
names an address of the other half. -/
theorem exists_le_userEnd_iff :
    (∃ a, ofWord? w = some a ∧ a.word ≤ userEnd) ↔ w < userEnd := by
  rw [UInt64.lt_iff_toNat_lt]
  constructor
  · rintro ⟨a, ha, hle⟩
    rw [UInt64.le_iff_toNat_le, toNat_userEnd] at hle
    rw [toNat_userEnd]
    obtain ⟨heq, hcan⟩ | ⟨-, heq⟩ := word_of_ofWord? ha
    · rw [heq] at hle
      unfold IsCanonical at hcan
      omega
    · omega
  · intro hlt
    have hcan : IsCanonical w := by
      rw [toNat_userEnd] at hlt
      exact .inl hlt
    exact ⟨_, ofWord?_of_canonical hcan, UInt64.le_iff_toNat_le.2 hlt.le⟩

end VirtAddr

namespace AddressSpace

variable {pool rest : FramePool} {m : StackMap} {id : ProcessId} {user kernel : Word}
  {frame : PhysAddr}

/-- With a frame at hand, only the addresses of the two slots can stand in the way. -/
theorem allocate_of_houses (h : m.Houses id user kernel) (hf : pool.take? = some (frame, rest)) :
    allocate pool m id =
      match VirtAddr.ofWord? user, VirtAddr.ofWord? kernel with
      | some userStack, some kernelStack => .ok (⟨frame, userStack, kernelStack⟩, rest)
      | none, _ => .error (.invalidAddress user)
      | some _, none => .error (.invalidAddress kernel) := by
  unfold allocate slotAddress
  rw [h.userStack, h.kernelStack, hf]
  simp only
  cases VirtAddr.ofWord? user <;> cases VirtAddr.ofWord? kernel <;> rfl

end AddressSpace

namespace Config

open AddressSpace

variable {c : Config} {id : ProcessId} {pool : FramePool}

/-- **Which processes of an accepted configuration get their memory.** While there is a frame, what
decides is where the two slots of the process start. It gets an address space with its stack in the
user half just when the user slot is below the end of that half and the kernel slot starts at an
address; a slot that starts at none is what the refusal names, and memory is never short. So a
configuration serves all its processes if it puts the user stacks below the end of the user half and
the kernel stacks above the start of the other, and then both stacks are where their slots are. -/
theorem allocate_of_validate (hc : c.validate = .ok ()) (hpos : 1 ≤ id.toNat)
    (hid : id.toNat ≤ c.maxProcesses.toNat) (hpool : pool.available ≠ 0) :
    ∃ user kernel, c.stackMap.Houses id user kernel ∧
      ((∃ space rest, allocate pool c.stackMap id = .ok (space, rest) ∧
          space.userStack.word ≤ userEnd) ↔
        user < userEnd ∧ (VirtAddr.ofWord? kernel).isSome) ∧
      (∀ e, allocate pool c.stackMap id = .error e ↔
        VirtAddr.ofWord? user = none ∧ e = .invalidAddress user ∨
          (VirtAddr.ofWord? user).isSome ∧ VirtAddr.ofWord? kernel = none ∧
            e = .invalidAddress kernel) ∧
      (c.userStackTop < userEnd → 0xFFFF800000000000 ≤ c.kernelStackBase.toNat →
        ∃ space rest, allocate pool c.stackMap id = .ok (space, rest) ∧
          space.userStack.word = user ∧ space.kernelStack.word = kernel) := by
  obtain ⟨user, kernel, h⟩ := houses_of_validate hc hpos hid
  obtain ⟨⟨frame, rest⟩, hf⟩ := Option.isSome_iff_exists.1 (FramePool.isSome_take?_iff.2 hpool)
  have halloc := allocate_of_houses h hf
  refine ⟨user, kernel, h, ?_, ?_, ?_⟩
  · rw [← VirtAddr.exists_le_userEnd_iff, halloc]
    cases VirtAddr.ofWord? user <;> cases VirtAddr.ofWord? kernel <;> simp
  · intro e
    rw [halloc]
    cases VirtAddr.ofWord? user <;> cases VirtAddr.ofWord? kernel <;> simp [eq_comm]
  · intro htop hbase
    rw [UInt64.lt_iff_toNat_lt, VirtAddr.toNat_userEnd] at htop
    have huser : (user.toNat : ℤ) ≤ c.userStackTop.toNat := h.user_end
    have hkernel : (c.kernelStackBase.toNat + c.kernelStackSize.toNat : ℤ) ≤
        kernel.toNat - c.kernelStackSize.toNat := h.kernel_start
    have hu : IsCanonical user := .inl (by omega)
    have hk : IsCanonical kernel := .inr (by omega)
    rw [halloc, VirtAddr.ofWord?_of_canonical hu, VirtAddr.ofWord?_of_canonical hk]
    exact ⟨_, _, rfl, rfl, rfl⟩

/-- The last process that the standard sizes allow. -/
theorem allocate_of_validate_standard :
    standard.validate = .ok () ∧ Machine.trialFrames.available ≠ 0 ∧
    ∃ user kernel space rest, standard.stackMap.Houses 1024 user kernel ∧
      allocate Machine.trialFrames standard.stackMap 1024 = .ok (space, rest) ∧
      space.userStack.word = user ∧ space.kernelStack.word = kernel := by
  have hc : standard.validate = .ok () := rfl
  have hpos : 1 ≤ (1024 : ProcessId).toNat := by decide
  have hid : (1024 : ProcessId).toNat ≤ standard.maxProcesses.toNat := by decide
  have hpool : Machine.trialFrames.available ≠ 0 := by decide
  obtain ⟨user, kernel, h, -, -, hhalves⟩ := allocate_of_validate hc hpos hid hpool
  obtain ⟨space, rest, hspace⟩ := hhalves (by decide) (by decide)
  exact ⟨hc, hpool, user, kernel, space, rest, h, hspace⟩

/-- The standard sizes with the user stacks below another word. -/
def toppedBy (top : Word) : Config :=
  { standard with userStackTop := top }

/-- User stacks below a word that is no address are accepted, and no process can be created. Below
the end of the user half they are accepted too, and the first process has its stack in the other
half. -/
theorem allocate_refused :
    (toppedBy 0x1000000000000000).validate = .ok () ∧ Machine.trialFrames.available ≠ 0 ∧
    allocate Machine.trialFrames (toppedBy 0x1000000000000000).stackMap 1 =
      .error (.invalidAddress 0x1000000000000000) ∧
    (toppedBy userEnd).validate = .ok () ∧
    ∃ space rest, allocate Machine.trialFrames (toppedBy userEnd).stackMap 1 = .ok (space, rest) ∧
      space.userStack.word = 0xFFFF800000000000 :=
  ⟨rfl, by decide, rfl, rfl, _, _, rfl, rfl⟩

end Config
end Nucleus
