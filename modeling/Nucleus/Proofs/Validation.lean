import Nucleus.Config

/-!
# Nucleus.Proofs.Validation

What the check of a configuration decides. It works on words, and a product or a sum that is no word
counts as one that does not fit, so its answer is the one that exact arithmetic gives: a
configuration is accepted when all its limits are positive and its stacks fit. Counting the slots is
itself a sum of words, and at the greatest limit that sum is none.

* `Config.Positive`, `Config.Fits`: the two conditions, in exact integers.
* `ConfigError.Names`: what is wrong with a configuration that is refused with an error.
* `Config.validate_cases`: the answers of the check, and what each says of the configuration.
* `Config.validate_eq_ok_iff`: an accepted configuration is positive and fits.
-/

namespace Nucleus

variable {c : Config} {slots : Word}

namespace Config

/-- Nothing that has to be counted in is zero. -/
structure Positive (c : Config) : Prop where
  maxProcesses : c.maxProcesses ≠ 0
  timerFrequency : c.timerFrequency ≠ 0
  timeSlice : c.timeSlice ≠ 0
  eventQueueCapacity : c.eventQueueCapacity ≠ 0
  inboxCapacity : c.inboxCapacity ≠ 0
  userStackSize : c.userStackSize ≠ 0
  kernelStackSize : c.kernelStackSize ≠ 0

/-- One slot more than there are processes fits between zero and the top of the user stacks, and
between the base of the kernel stacks and the greatest word. -/
structure Fits (c : Config) : Prop where
  user : (c.maxProcesses.toNat + 1) * c.userStackSize.toNat ≤ c.userStackTop.toNat
  kernel : c.kernelStackBase.toNat + (c.maxProcesses.toNat + 1) * c.kernelStackSize.toNat <
    0x10000000000000000

end Config

/-- The configuration has the defect that the error reports. -/
def ConfigError.Names (e : ConfigError) (c : Config) : Prop :=
  match e with
  | noProcesses => c.maxProcesses = 0
  | zeroTimer => c.timerFrequency = 0 ∨ c.timeSlice = 0
  | zeroQueue => c.eventQueueCapacity = 0 ∨ c.inboxCapacity = 0
  | stackLayout => c.userStackSize = 0 ∨ c.kernelStackSize = 0 ∨ ¬ c.Fits

namespace Config

/-! ### The two regions -/

theorem userStacksFit_iff :
    c.userStacksFit slots ↔ slots.toNat * c.userStackSize.toNat ≤ c.userStackTop.toNat := by
  unfold userStacksFit
  cases h : Word.mul? slots c.userStackSize with
  | none =>
    have hspan := Word.mul?_eq_none_iff.1 h
    have htop := Word.toNat_lt c.userStackTop
    exact iff_of_false Bool.false_ne_true (by omega)
  | some span =>
    rw [decide_eq_true_iff, UInt64.le_iff_toNat_le, Word.mul?_eq_some_iff.1 h]

theorem kernelStacksFit_iff :
    c.kernelStacksFit slots ↔
      c.kernelStackBase.toNat + slots.toNat * c.kernelStackSize.toNat < 0x10000000000000000 := by
  unfold kernelStacksFit
  cases h : Word.mul? slots c.kernelStackSize with
  | none =>
    have hspan := Word.mul?_eq_none_iff.1 h
    exact iff_of_false Bool.false_ne_true (by omega)
  | some span =>
    show (Word.add? c.kernelStackBase span).isSome ↔ _
    rw [Option.isSome_iff_ne_none, Ne, Word.add?_eq_none_iff, Word.mul?_eq_some_iff.1 h, Nat.not_le]

/-- Where the stacks fit, their number is a word. -/
theorem Fits.slots_lt (hp : c.Positive) (hf : c.Fits) :
    c.maxProcesses.toNat + 1 < 0x10000000000000000 := by
  have hsize : c.userStackSize.toNat ≠ 0 := fun h => hp.userStackSize (UInt64.toNat_inj.1 h)
  have hspan := Nat.le_mul_of_pos_right (c.maxProcesses.toNat + 1) (Nat.pos_of_ne_zero hsize)
  exact Nat.lt_of_le_of_lt (Nat.le_trans hspan hf.user) (Word.toNat_lt c.userStackTop)

theorem Fits.maxProcesses_ne_greatest (hp : c.Positive) (hf : c.Fits) :
    c.maxProcesses ≠ Word.greatest := by
  intro hmax
  have hlt := hf.slots_lt hp
  rw [hmax] at hlt
  exact absurd hlt (by decide)

/-! ### The check -/

/-- Behind the limits, the check counts the slots and asks whether they fit. -/
theorem validate_of_positive (h : c.Positive) :
    c.validate = match Word.add? c.maxProcesses 1 with
      | none => .error (.fault .overflow)
      | some slots =>
        if c.userStacksFit slots ∧ c.kernelStacksFit slots then .ok ()
        else .error (.invalid .stackLayout) := by
  unfold validate
  refine (if_neg h.maxProcesses).trans ?_
  refine (if_neg (not_or.2 ⟨h.timerFrequency, h.timeSlice⟩)).trans ?_
  refine (if_neg (not_or.2 ⟨h.eventQueueCapacity, h.inboxCapacity⟩)).trans ?_
  exact if_neg (not_or.2 ⟨h.userStackSize, h.kernelStackSize⟩)

/-- A limit that is zero is reported, whatever else is wrong. -/
theorem validate_of_not_positive (h : ¬ c.Positive) :
    ∃ e, c.validate = .error (.invalid e) ∧ e.Names c := by
  unfold validate
  split
  · rename_i hmax
    exact ⟨_, rfl, hmax⟩
  · rename_i hmax
    split
    · rename_i htimer
      exact ⟨_, rfl, htimer⟩
    · rename_i htimer
      split
      · rename_i hqueue
        exact ⟨_, rfl, hqueue⟩
      · rename_i hqueue
        split
        · rename_i hsize
          exact ⟨_, rfl, hsize.imp_right .inl⟩
        · rename_i hsize
          rw [not_or] at htimer hqueue hsize
          exact absurd ⟨hmax, htimer.1, htimer.2, hqueue.1, hqueue.2, hsize.1, hsize.2⟩ h

theorem validate_of_greatest (h : c.Positive) (hmax : c.maxProcesses = Word.greatest) :
    c.validate = .error (.fault .overflow) := by
  rw [validate_of_positive h, hmax]
  rfl

/-- Below the greatest limit the slots can be counted, and the check is about the exact spans. -/
theorem validate_of_ne_greatest (h : c.Positive) (hmax : c.maxProcesses ≠ Word.greatest) :
    c.Fits ∧ c.validate = .ok () ∨
      ¬ c.Fits ∧ c.validate = .error (.invalid .stackLayout) := by
  have hone : (1 : Word).toNat = 1 := rfl
  cases hs : Word.add? c.maxProcesses 1 with
  | none =>
    have hover := Word.add?_eq_none_iff.1 hs
    have hlt := Word.toNat_lt c.maxProcesses
    have : Word.greatest.toNat = 0xFFFFFFFFFFFFFFFF := rfl
    exact absurd (UInt64.toNat_inj.1 (by omega)) hmax
  | some slots =>
    have hslots : slots.toNat = c.maxProcesses.toNat + 1 := by
      rw [Word.add?_eq_some_iff.1 hs, hone]
    have hfits : (c.userStacksFit slots ∧ c.kernelStacksFit slots) ↔ c.Fits := by
      rw [userStacksFit_iff, kernelStacksFit_iff, hslots]
      exact ⟨fun h => ⟨h.1, h.2⟩, fun h => ⟨h.user, h.kernel⟩⟩
    rw [validate_of_positive h, hs]
    by_cases hf : c.Fits
    · exact .inl ⟨hf, if_pos (hfits.2 hf)⟩
    · exact .inr ⟨hf, if_neg fun h' => hf (hfits.1 h')⟩

/-- The three answers of the check, each with what is behind it. -/
theorem validate_cases (c : Config) :
    c.Positive ∧ c.Fits ∧ c.validate = .ok () ∨
      c.Positive ∧ c.maxProcesses = Word.greatest ∧ c.validate = .error (.fault .overflow) ∨
        ¬ (c.Positive ∧ c.Fits) ∧ ¬ (c.Positive ∧ c.maxProcesses = Word.greatest) ∧
          ∃ e, c.validate = .error (.invalid e) ∧ e.Names c := by
  by_cases hp : c.Positive
  · by_cases hmax : c.maxProcesses = Word.greatest
    · exact .inr (.inl ⟨hp, hmax, validate_of_greatest hp hmax⟩)
    · obtain ⟨hf, h⟩ | ⟨hf, h⟩ := validate_of_ne_greatest hp hmax
      · exact .inl ⟨hp, hf, h⟩
      · exact .inr (.inr ⟨fun h' => hf h'.2, fun h' => hmax h'.2, _, h, .inr (.inr hf)⟩)
  · exact .inr (.inr ⟨fun h' => hp h'.1, fun h' => hp h'.1, validate_of_not_positive hp⟩)

theorem validate_eq_ok_iff : c.validate = .ok () ↔ c.Positive ∧ c.Fits := by
  obtain ⟨hp, hf, h⟩ | ⟨hp, hmax, h⟩ | ⟨hnot, -, e, h, -⟩ := validate_cases c
  · exact iff_of_true h ⟨hp, hf⟩
  · rw [h]
    exact iff_of_false nofun fun h' => h'.2.maxProcesses_ne_greatest h'.1 hmax
  · rw [h]
    exact iff_of_false nofun hnot

/-- **The check of a configuration decides in exact arithmetic.** It accepts a configuration just
when no limit is zero, one slot more than there are processes fits below the top of the user stacks
and that many fit above the base of the kernel stacks. It faults just when no limit is zero and the
limit of processes is the greatest word. Every other configuration is refused with an error that
names one of its defects. -/
theorem validate_decides (c : Config) :
    (c.validate = .ok () ↔ c.Positive ∧ c.Fits) ∧
    (∀ f, c.validate = .error (.fault f) ↔
      f = .overflow ∧ c.Positive ∧ c.maxProcesses = Word.greatest) ∧
    ((∃ e, c.validate = .error (.invalid e) ∧ e.Names c) ↔
      ¬ (c.Positive ∧ c.Fits) ∧ ¬ (c.Positive ∧ c.maxProcesses = Word.greatest)) := by
  refine ⟨validate_eq_ok_iff, ?_⟩
  obtain ⟨hp, hf, h⟩ | ⟨hp, hmax, h⟩ | ⟨hnot, hne, e, h, hnames⟩ := validate_cases c
  · have hne := hf.maxProcesses_ne_greatest hp
    rw [h]
    exact ⟨fun f => iff_of_false nofun fun h' => hne h'.2.2,
      iff_of_false nofun fun h' => h'.1 ⟨hp, hf⟩⟩
  · rw [h]
    refine ⟨fun f => ⟨fun h' => ?_, fun h' => by rw [h'.1]⟩,
      iff_of_false nofun fun h' => h'.2 ⟨hp, hmax⟩⟩
    cases h'
    exact ⟨rfl, hp, hmax⟩
  · rw [h]
    exact ⟨fun f => iff_of_false nofun fun h' => hne h'.2,
      iff_of_true ⟨e, rfl, hnames⟩ ⟨hnot, hne⟩⟩

/-- The standard sizes with another limit of processes. -/
def limitedTo (limit : Word) : Config :=
  { standard with maxProcesses := limit }

/-- The stacks of as many processes as there are words do not fit, and the check has no answer. -/
theorem validate_overflows :
    ¬ (limitedTo Word.greatest).Fits ∧
      (limitedTo Word.greatest).validate = .error (.fault .overflow) :=
  ⟨fun h => absurd h.user (by decide), rfl⟩

end Config
end Nucleus
