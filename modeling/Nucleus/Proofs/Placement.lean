import Nucleus.Proofs.Creation
import Nucleus.Proofs.Refusal
import Nucleus.Proofs.Registers
import Nucleus.Proofs.Slots

/-!
# Nucleus.Proofs.Placement

Where a process starts and where its stack is, if a request says so in its argument. The argument
has to be an address. A word whose bits from the 47th on are all equal is one, and is kept to the
bit in the registers it ends up in; a word that has only the 47th of these bits set is taken for the
address that has all of them set; and any other word is refused, with nothing done.

* `Uniform`, `isCanonical_iff_uniform`: the words that are addresses as they stand.
* `Machine.SpawnsAt`, `Machine.SetsStack`: what becomes of a request.
* `address_exact_or_refused`: what becomes of it for each argument.
-/

namespace Nucleus

/-- The bits of a word from the 47th on: seventeen of them. -/
def topBits (w : Word) : Word :=
  w >>> 47

theorem toNat_topBits (w : Word) : (topBits w).toNat = w.toNat / 0x800000000000 := by
  unfold topBits
  rw [UInt64.toNat_shiftRight, Nat.shiftRight_eq_div_pow]
  rfl

/-- The top bits are all clear or all set. -/
def Uniform (w : Word) : Prop :=
  topBits w = 0 ∨ topBits w = 0x1FFFF

instance (w : Word) : Decidable (Uniform w) :=
  inferInstanceAs (Decidable (_ ∨ _))

theorem isCanonical_iff_uniform {w : Word} : IsCanonical w ↔ Uniform w := by
  have hlt := Word.toNat_lt w
  have hclear : (0 : Word).toNat = 0 := rfl
  have hset : (0x1FFFF : Word).toNat = 0x1FFFF := rfl
  unfold IsCanonical Uniform
  rw [← UInt64.toNat_inj, ← UInt64.toNat_inj, toNat_topBits, hclear, hset]
  omega

namespace VirtAddr

variable {w : Word}

theorem topBits_eq_one_iff :
    topBits w = 1 ↔ 0x800000000000 ≤ w.toNat ∧ w.toNat < 0x1000000000000 := by
  have hone : (1 : Word).toNat = 1 := rfl
  rw [← UInt64.toNat_inj, toNat_topBits, hone]
  omega

theorem ofWord?_of_uniform (h : Uniform w) : ∃ a, ofWord? w = some a ∧ a.word = w :=
  ⟨_, ofWord?_of_canonical (isCanonical_iff_uniform.2 h), rfl⟩

theorem ofWord?_of_lowest (h : topBits w = 1) : ∃ a, ofWord? w = some a ∧ a.word = extend w := by
  obtain ⟨hhalf, hlt⟩ := topBits_eq_one_iff.1 h
  unfold ofWord?
  rw [dif_neg (by unfold IsCanonical; omega), dif_pos hlt]
  exact ⟨_, rfl, rfl⟩

theorem ofWord?_of_mixed (h : ¬ Uniform w) (h' : topBits w ≠ 1) : ofWord? w = none := by
  rw [← isCanonical_iff_uniform] at h
  rw [Ne, topBits_eq_one_iff] at h'
  unfold ofWord?
  rw [dif_neg h, dif_neg (by unfold IsCanonical at h; omega)]

end VirtAddr

/-- The argument of the operation is an address. -/
def OperationCode.takesAddress : OperationCode → Bool
  | spawn => true
  | setStack => true
  | _ => false

theorem Operation.decode_of_no_address {code : OperationCode} {w : Word} {memory : UserMemory}
    (hcode : code.takesAddress = true) (h : VirtAddr.ofWord? w = none) :
    decode code w memory = .error .invalidArgument := by
  have haddress : address w = .error .invalidArgument := by
    unfold address
    rw [h]
  cases code with
  | spawn => exact congrArg (Except.map Operation.spawn) haddress
  | setStack => exact congrArg (Except.map Operation.setStack) haddress
  | _ => cases hcode

namespace Machine

variable {m : Machine} {caller target : ProcessId} {q : Request} {a : VirtAddr} {w : Word}

/-- The request is refused if something speaks against any new process; else it is answered with the
identifier of one that was not there before, does not have the CPU, and is to start at a word. -/
def SpawnsAt (m : Machine) (caller : ProcessId) (q : Request) (entry : Word) : Prop :=
  (∃ e, m.kernel.spawnObjection? = some e ∧ m.Refuses caller q e) ∨
    ∃ n id p, m.withKernel (fun m => m.serve q) = .done n (.ready (.value id)) ∧
      m.kernel.processes.get? id = none ∧ n.kernel.processes.get? id = some p ∧
        n.kernel.current ≠ some id ∧ p.context.rip = entry

/-- The request succeeds, and a process has its stack at a word: so its record says, and so does its
stack pointer, be it in the frame or saved. -/
def SetsStack (m : Machine) (q : Request) (target : ProcessId) (stack : Word) : Prop :=
  ∃ n p, m.withKernel (fun m => m.serve q) = .done n (.ready (.value 0)) ∧
    n.kernel.processes.get? target = some p ∧ p.space.userStack.word = stack ∧
      (n.registers p).rsp = stack

/-! ### The two requests -/

theorem spawnsAt_of_address (hm : Reachable m) (hc : m.kernel.current = some caller)
    (hcode : OperationCode.ofWord? q.operation = some .spawn)
    (ha : VirtAddr.ofWord? q.argument = some a) : m.SpawnsAt caller q a.word := by
  obtain ⟨p, hp, rfl, _⟩ := (bound_of_reachable hm).currentProcess? hc
  have hdecode : Operation.decode .spawn q.argument m.kernel.memory = .ok (.spawn a) :=
    Operation.decode_eq_ok_iff.2 ⟨rfl, ha⟩
  have hu : m.understand p.id .spawn q = .ok (p.id, .spawn a) :=
    understand_of_readable rfl hdecode
  cases hobjection : m.kernel.spawnObjection? with
  | some e => exact .inl ⟨e, hobjection, refuses_of_objection hm hp hcode hu hobjection⟩
  | none =>
    obtain ⟨child, k, hk⟩ := Kernel.spawnObjection?_eq_none hobjection a false
    have hcreates := Kernel.creates_of_create hk
    let k' := { k with processes := k.processes.modify child.id (Process.setParent p.id) }
    obtain ⟨n, hn, hkernel⟩ := withKernel_serve_of_perform (c := .ready (.value child.id))
      (P := fun kernel _ => kernel = k') hm hp hcode hu fun w hw _ => by
        simp only [perform, spawn, Machine.create, hw, hk]
        exact ⟨_, rfl, rfl⟩
    refine .inr ⟨n, child.id, child.setParent p.id, hn, hcreates.fresh, ?_, ?_, ?_⟩
    · rw [hkernel, Registry.get?_modify, if_pos rfl, hcreates.get?, if_pos rfl]
      rfl
    · have hcurrent : n.kernel.current = some p.id := by
        rw [hkernel, ← hc]
        show k.current = m.kernel.current
        rw [hcreates.kernel]
      rw [hcurrent]
      intro hchild
      exact hcreates.ne (currentProcess?_eq_some hp).2 (Option.some.inj hchild).symm
    · show child.context.rip = a.word
      rw [hcreates.process]
      rfl

theorem setsStack_of_address (hm : Reachable m) (hc : m.kernel.current = some caller)
    (hcode : OperationCode.ofWord? q.operation = some .setStack)
    (htarget : m.kernel.resolveTarget caller q.target = .ok target)
    (ha : VirtAddr.ofWord? q.argument = some a) : m.SetsStack q target a.word := by
  obtain ⟨p, hp, rfl, _⟩ := (bound_of_reachable hm).currentProcess? hc
  obtain ⟨o, ho⟩ := Option.isSome_iff_exists.1
    (isSome_of_resolveTarget (isSome_of_currentProcess? hp) htarget)
  have hdecode : Operation.decode .setStack q.argument m.kernel.memory = .ok (.setStack a) :=
    Operation.decode_eq_ok_iff.2 ⟨rfl, ha⟩
  have hu : m.understand p.id .setStack q = .ok (target, .setStack a) :=
    understand_of_resolveTarget rfl htarget hdecode
  let restack : Kernel → Kernel := fun k =>
    { k with processes := k.processes.modify target (Process.setUserStack a) }
  obtain ⟨n, hn, hkernel, hframe⟩ := withKernel_serve_of_perform (c := .ready (.value 0))
    (P := fun kernel frame => kernel = restack m.kernel ∧ (target = p.id → frame.rsp = a.word))
    hm hp hcode hu fun w hw _ => by
      simp only [perform, setStack]
      split
      · exact ⟨_, rfl, congrArg restack hw, fun _ => rfl⟩
      · rename_i hne
        exact ⟨_, rfl, congrArg restack hw, fun he => absurd he hne⟩
  refine ⟨n, o.setUserStack a, hn, ?_, rfl, ?_⟩
  · rw [hkernel, Registry.get?_modify, if_pos rfl, ho]
    rfl
  · have hid : o.id = target := Registry.id_of_get? ho
    unfold registers
    rw [Process.id_setUserStack, hid, hkernel]
    show (if m.kernel.current = some target then n.frame else _).rsp = a.word
    split
    · rename_i hcurrent
      rw [hc] at hcurrent
      exact hframe (Option.some.inj hcurrent).symm
    · rfl

/-! ### All arguments -/

/-- A word that names no address is refused for it, once the target is known. -/
theorem refuses_of_no_address (hm : Reachable m) (hc : m.kernel.current = some caller)
    {code : OperationCode} (hcode : OperationCode.ofWord? q.operation = some code)
    (htakes : code.takesAddress = true) (htarget : m.kernel.lacksTarget code q.target = false)
    (hw : VirtAddr.ofWord? q.argument = none) : m.Refuses caller q .invalidArgument := by
  refine withKernel_serve_of_refusal hm hc ?_
  unfold Kernel.refusal?
  simp only [hcode, htarget, Operation.decode_of_no_address htakes hw]
  rfl

/-- **An address argument is exact or refused.** Of the two requests that have one, a request for a
new process and one for another stack of a process that exists, each is done with the very word if
its top bits are all equal: the new process, if there can be one, is to start at that word, and the
target has its stack there. A word of which bit 47 is the only top bit set is done with as if all of
them were set. Every other word is refused as an invalid argument, and nothing is changed. -/
theorem address_exact_or_refused (hm : Reachable m) (hc : m.kernel.current = some caller)
    (q : Request) :
    (OperationCode.ofWord? q.operation = some .spawn →
      (Uniform q.argument → m.SpawnsAt caller q q.argument) ∧
      (topBits q.argument = 1 → m.SpawnsAt caller q (VirtAddr.extend q.argument)) ∧
      (¬ Uniform q.argument → topBits q.argument ≠ 1 → m.Refuses caller q .invalidArgument)) ∧
    ∀ target, OperationCode.ofWord? q.operation = some .setStack →
      m.kernel.resolveTarget caller q.target = .ok target →
      (Uniform q.argument → m.SetsStack q target q.argument) ∧
      (topBits q.argument = 1 → m.SetsStack q target (VirtAddr.extend q.argument)) ∧
      (¬ Uniform q.argument → topBits q.argument ≠ 1 → m.Refuses caller q .invalidArgument) := by
  refine ⟨fun hcode => ⟨fun h => ?_, fun h => ?_, fun h h' => ?_⟩,
    fun target hcode htarget => ⟨fun h => ?_, fun h => ?_, fun h h' => ?_⟩⟩
  · obtain ⟨a, ha, hword⟩ := VirtAddr.ofWord?_of_uniform h
    exact hword ▸ spawnsAt_of_address hm hc hcode ha
  · obtain ⟨a, ha, hword⟩ := VirtAddr.ofWord?_of_lowest h
    exact hword ▸ spawnsAt_of_address hm hc hcode ha
  · exact refuses_of_no_address hm hc hcode rfl rfl (VirtAddr.ofWord?_of_mixed h h')
  · obtain ⟨a, ha, hword⟩ := VirtAddr.ofWord?_of_uniform h
    exact hword ▸ setsStack_of_address hm hc hcode htarget ha
  · obtain ⟨a, ha, hword⟩ := VirtAddr.ofWord?_of_lowest h
    exact hword ▸ setsStack_of_address hm hc hcode htarget ha
  · have hexists : m.kernel.lacksTarget .setStack q.target = false :=
      lacksTarget_of_resolveTarget htarget
    exact refuses_of_no_address hm hc hcode rfl hexists (VirtAddr.ofWord?_of_mixed h h')

/-- A request of the process with the CPU for a process at a word. -/
def spawnAt (w : Word) : Request :=
  ⟨0, OperationCode.spawn.toWord, w, 0⟩

/-- A request of the process with the CPU for a stack at a word. -/
def restackAt (target : ProcessId) (w : Word) : Request :=
  ⟨target, OperationCode.setStack.toWord, w, 0⟩

/-- The first process asks for a process at the last word of the lower half, for a stack of its
own at the first word of the upper half, and for stacks of either at a word in between. -/
theorem address_exact_or_refused_edges : ∃ m,
    trial (.boot trialEntry :: calls 0 .spawn 0x2000) = .done m () ∧ Reachable m ∧
    m.kernel.current = some 1 ∧
    m.SpawnsAt 1 (spawnAt 0x7FFFFFFFFFFF) 0x7FFFFFFFFFFF ∧
    m.SetsStack (restackAt 0 0xFFFF800000000000) 1 0xFFFF800000000000 ∧
    m.SetsStack (restackAt 2 0x7FFFFFFFFFFF) 2 0x7FFFFFFFFFFF ∧
    m.Refuses 1 (restackAt 2 0x1000000000000) .invalidArgument := by
  obtain ⟨m, hm, hcheck⟩ := Outcome.exists_of_endsIn
    (trial (.boot trialEntry :: calls 0 .spawn 0x2000))
    (fun m => m.kernel.current == some 1 &&
      decide (m.kernel.resolveTarget 1 2 = .ok 2))
    (by decide +kernel)
  simp only [Bool.and_eq_true, beq_iff_eq, decide_eq_true_eq] at hcheck
  obtain ⟨hc, htwo⟩ := hcheck
  have hexact := fun q => address_exact_or_refused (.trial hm) hc q
  refine ⟨m, hm, .trial hm, hc, ((hexact _).1 rfl).1 (.inl rfl),
    ((hexact (restackAt 0 _)).2 1 rfl rfl).1 (.inr rfl),
    ((hexact (restackAt 2 _)).2 2 rfl htwo).1 (.inl rfl),
    ((hexact (restackAt 2 _)).2 2 rfl htwo).2.2 (by decide) (by decide)⟩

/-- The first word behind the user half is no address, and it is not refused: the new process is to
start at the lowest address of the other half, and the caller has its stack there. -/
theorem address_extended : ∃ m n p s, trial [.boot trialEntry] = .done m () ∧
    ¬ Uniform userEnd ∧
    m.withKernel (fun m => m.serve (spawnAt userEnd)) = .done n (.ready (.value 2)) ∧
    n.kernel.processes.get? 2 = some p ∧ p.context.rip = 0xFFFF800000000000 ∧
    m.withKernel (fun m => m.serve (restackAt 0 userEnd)) = .done s (.ready (.value 0)) ∧
    s.kernel.current = some 1 ∧ s.frame.rsp = 0xFFFF800000000000 := by
  obtain ⟨m, hm, hcheck⟩ := Outcome.exists_of_endsIn (trial [.boot trialEntry])
    (fun m =>
      (m.withKernel fun m => m.serve (spawnAt userEnd)).yields (.ready (.value 2)) (fun n =>
        (n.kernel.processes.get? 2).any fun p => p.context.rip == 0xFFFF800000000000) &&
      (m.withKernel fun m => m.serve (restackAt 0 userEnd)).yields (.ready (.value 0)) fun s =>
        s.kernel.current == some 1 && s.frame.rsp == 0xFFFF800000000000)
    (by decide +kernel)
  obtain ⟨hspawned, hrestacked⟩ := Bool.and_eq_true_iff.1 hcheck
  obtain ⟨n, hn, hchild⟩ := Outcome.exists_of_yields _ _ _ hspawned
  obtain ⟨s, hs, hstack⟩ := Outcome.exists_of_yields _ _ _ hrestacked
  simp only [Option.any_eq_true, Bool.and_eq_true, beq_iff_eq] at hchild hstack
  obtain ⟨p, hp, hentry⟩ := hchild
  exact ⟨m, n, p, s, hm, by decide, hn, hp, hentry, hs, hstack.1, hstack.2⟩

end Machine
end Nucleus
