import Nucleus.Proofs.Population

/-!
# Nucleus.Proofs.Activation

The page directory that the CPU translates addresses with. A decision activates that of the process
it selects, and leaves this out where the process that had the CPU before has the same one. Nothing
tells the kernel which page directory is active; it goes by who has the CPU. That is right because
the process with the CPU, as long as there is one, is the one whose page directory was activated
last, in the middle of an operation as well.

* `Machine.InStep`: this invariant. It says nothing while nobody has the CPU, so a frame that was
  returned and handed out again does not disturb it.
* `activated_schedule`: what a decision activates, and that it is in step again afterwards.
* `active_space`: between two actions the process with the CPU has its own page directory.
-/

namespace Nucleus
namespace Machine

variable {m n o : Machine} {id caller target : ProcessId} {op : Operation} {c : Completion}

/-- The page directory activated last is that of the process with the CPU, if there is one. -/
def InStep (m : Machine) : Prop :=
  ∀ p, m.kernel.currentProcess? = some p → m.activated.head? = some p.space.pageDirectory

theorem currentProcess?_eq_some_iff {k : Kernel} {p : Process} :
    k.currentProcess? = some p ↔ k.current = some p.id ∧ k.processes.get? p.id = some p := by
  constructor
  · exact currentProcess?_eq_some
  · rintro ⟨hc, hp⟩
    unfold Kernel.currentProcess?
    rw [hc]
    exact hp

/-- Nothing is activated, and whoever has the CPU had it before, with the same page directory. -/
theorem InStep.of_current (h : m.InStep) (ha : n.activated = m.activated)
    (hc : ∀ j q, n.kernel.current = some j → n.kernel.processes.get? j = some q →
      m.kernel.current = some j ∧ ∃ p, m.kernel.processes.get? j = some p ∧
        q.space.pageDirectory = p.space.pageDirectory) : n.InStep := by
  intro q hq
  obtain ⟨hcurrent, hget⟩ := currentProcess?_eq_some hq
  obtain ⟨hbefore, p, hp, hdirectory⟩ := hc q.id q hcurrent hget
  have hid := Registry.id_of_get? hp
  rw [ha, hdirectory]
  exact h p (currentProcess?_eq_some_iff.2 ⟨hid ▸ hbefore, hid ▸ hp⟩)

theorem InStep.lasts (h : m.InStep) (hn : m.Lasts n) (hc : n.kernel.current = m.kernel.current)
    (ha : n.activated = m.activated) : n.InStep := by
  refine h.of_current ha fun j q hj hq => ⟨hc ▸ hj, ?_⟩
  obtain ⟨p, hp, hpq⟩ := hn.processes.back hq
  exact ⟨p, hp, hpq.directory⟩

theorem InStep.quiet (h : m.InStep) (hn : m.Quiet n) : n.InStep :=
  h.lasts (lasts_quiet hn) hn.current hn.activated

theorem InStep.create {entry : VirtAddr} {privileged : Bool} {p : Process} {k : Kernel}
    (h : m.InStep) (hb : m.kernel.Bound) (hk : m.kernel.Creates entry privileged p k) :
    (m.setKernel k).InStep := by
  have hcurrent : k.current = m.kernel.current := by rw [hk.kernel]
  refine h.of_current rfl fun j q hj hq => ?_
  replace hj : k.current = some j := hj
  replace hq : k.processes.get? j = some q := hq
  rw [hcurrent] at hj
  -- Who has the CPU is registered, so the new process is another one.
  obtain ⟨o, ho⟩ := hb.current hj
  rw [hk.get?, if_neg (hk.ne ho)] at hq
  exact ⟨hj, q, hq, rfl⟩

theorem InStep.remove {status : Word} {k : Kernel} (h : m.InStep)
    (hk : m.kernel.remove id status = .ok k) : (m.setKernel k).InStep := by
  refine h.of_current rfl fun j q hj hq => ?_
  obtain ⟨hcurrent, hne⟩ := (Kernel.current_removed hk j).1 hj
  replace hq : k.processes.get? j = some q := hq
  rw [Kernel.get?_removed hk, if_neg hne] at hq
  obtain ⟨p, hp, rfl⟩ := Option.map_eq_some_iff.1 hq
  exact ⟨hcurrent, p, hp, (lasting_afterExit id status p).directory⟩

theorem InStep.modify {f : Process → Process} {hf : ∀ p, (f p).id = p.id} (h : m.InStep)
    (hlasts : ∀ p, m.kernel.processes.get? id = some p → p.Lasting (f p)) :
    (m.modifyProcess id f hf).InStep :=
  h.lasts (lasts_modify hlasts) rfl rfl

theorem InStep.completed (h : m.InStep) (caller : ProcessId) (c : Completion) :
    (m.completed caller c).InStep := by
  cases c with
  | deferred => exact h
  | ready r =>
    show (m.answer caller r.encode).InStep
    unfold answer
    split
    · exact h
    · exact h.modify fun _ _ => ⟨rfl, rfl⟩

theorem inStep_of_none (h : m.kernel.current = none) : m.InStep := by
  intro p hp
  rw [(currentProcess?_eq_some hp).1] at h
  cases h

/-! ### A decision -/

theorem activated_giveCpu (m : Machine) (active : Option PhysAddr) (p : Process) (s : RoundRobin) :
    (m.giveCpu active p s).activated = if active = some p.space.pageDirectory then m.activated
      else p.space.pageDirectory :: m.activated := by
  unfold giveCpu
  simp only
  split <;> rfl

@[simp] theorem activated_suspendCurrent (m : Machine) :
    m.suspendCurrent.activated = m.activated := by
  unfold suspendCurrent
  split <;> rfl

/-- A decision activates the page directory of the process it selects, unless that of the process
that had the CPU is the same one. Whatever arrives meanwhile activates nothing. -/
theorem activated_schedule (h : m.schedule = .done n id) :
    ∃ p, n.kernel.currentProcess? = some p ∧ p.id = id ∧
      n.activated = if (m.kernel.currentProcess?.map fun p => p.space.pageDirectory) =
        some p.space.pageDirectory then m.activated else p.space.pageDirectory :: m.activated := by
  unfold schedule at h
  split at h
  · obtain ⟨w, p, s, rest, hq, hs, rfl, rfl⟩ := selectNext_done h
    obtain ⟨_, hp, _, _⟩ := RoundRobin.select_eq_some hs
    refine ⟨p.run, currentProcess?_eq_some_iff.2 ⟨?_, ?_⟩, rfl, ?_⟩
    · show (giveCpu ..).kernel.current = _
      rw [kernel_giveCpu]
      rfl
    · show (giveCpu ..).kernel.processes.get? p.id = _
      rw [get?_giveCpu, if_pos rfl, hp]
      rfl
    · show (giveCpu ..).activated = _
      rw [activated_giveCpu, hq.activated, activated_suspendCurrent]
      rfl
  · cases h

/-- A decision leaves the machine in step if it was. -/
theorem InStep.schedule (h : m.InStep) (hs : m.schedule = .done n id) : n.InStep := by
  obtain ⟨p, hp, _, hactivated⟩ := activated_schedule hs
  intro q hq
  cases hp.symm.trans hq
  rw [hactivated]
  split
  · -- Left out: the same page directory was active already.
    rename_i hsame
    obtain ⟨o, ho, hdirectory⟩ := Option.map_eq_some_iff.1 hsame
    rw [h o ho, hdirectory]
  · rfl

/-! ### Every action -/

theorem activated_spawn {entry : VirtAddr} (h : m.spawn caller entry = .done n c) :
    n.activated = m.activated := by
  unfold spawn Machine.create at h
  split at h
  · cases h
    rfl
  · rename_i hw
    split at hw
    · cases hw
    · cases hw
      cases h
      rfl

/-- Nothing is activated by a request to spawn. -/
theorem activated_serve_spawn {q : Request} {entry : VirtAddr}
    (hasked : m.asked q = some (target, .spawn entry)) (h : m.serve q = .done n c) :
    n.activated = m.activated := by
  obtain ⟨p, _, hp, _⟩ := asked_eq_some hasked
  obtain ⟨code, hserve⟩ := serve_asked hp hasked
  rw [hserve] at h
  obtain ⟨w, r, hw, hn⟩ := Outcome.andThen_eq_done_iff.1 h
  cases hn
  exact (quiet_noteRefusal w _ _ _).activated.trans (activated_spawn (m := m.note _) hw)

theorem inStep_performed (hm : m.InStep) (hb : m.kernel.Bound)
    (hspawn : ∀ entry, op = .spawn entry → n.activated = m.activated)
    (h : m.Performed caller target op n c) : n.InStep := by
  cases h with
  | quietly _ hq => exact hm.quiet hq
  | @spawned entry p k _ hk hn _ =>
    -- The parent is entered in the new process, which does not have the CPU.
    refine InStep.of_current (hm.create hb (Kernel.creates_of_create hk)) (hspawn entry rfl)
      fun j q hj hq => ?_
    rw [hn] at hj hq
    refine ⟨hj, ?_⟩
    replace hq : (k.processes.modify p.id (Process.setParent caller)).get? j = some q := hq
    rw [Registry.get?_modify] at hq
    split at hq
    · obtain ⟨o, ho, rfl⟩ := Option.map_eq_some_iff.1 hq
      exact ⟨o, ho, rfl⟩
    · exact ⟨q, hq, rfl⟩
  | killed hk hq hs => exact ((hm.remove hk).quiet hq).schedule hs
  | waited _ hs =>
    have hblocked : (m.modifyProcess caller (Process.waitFor target)).InStep :=
      hm.modify fun _ _ => ⟨rfl, rfl⟩
    exact hblocked.schedule hs
  | slept _ hf hs =>
    refine InStep.schedule (hm.modify fun p hp => ?_) hs
    rw [hf p hp]
    exact ⟨rfl, rfl⟩
  | yielded hs => exact hm.schedule hs
  | @stackSet stack _ hn =>
    have hset : (m.modifyProcess target (Process.setUserStack stack)).InStep :=
      hm.modify fun _ _ => ⟨rfl, rfl⟩
    rw [hn]
    exact hset

theorem inStep_served {q : Request} (hm : m.InStep) (hb : m.kernel.Bound)
    (h : m.serve q = .done n c) : n.InStep := by
  obtain ⟨p, _, ⟨_, hq, _⟩ | ⟨target, op, note, w, hasked, _, hw, hq⟩⟩ := serve_done h
  · exact hm.quiet hq
  · refine InStep.quiet (inStep_performed (m := m.note note) hm hb (fun entry hop => ?_) hw) hq
    subst hop
    exact hq.activated.symm.trans (activated_serve_spawn (m := m) hasked h)

theorem inStep_acted {a : Action} (hm : m.InStep) (hb : m.kernel.Bound) (h : m.Acted a n) :
    n.InStep := by
  cases h with
  | computed => exact hm.lasts ⟨.refl Process.Lasting.refl _, rfl⟩ rfl rfl
  | quietly _ _ hq => exact hm.quiet hq
  | booted hk hw hv hn =>
    exact (((hm.create hb (Kernel.creates_of_create hk)).quiet hw).schedule hv).quiet hn
  | requested hp _ hv hn =>
    refine (InStep.completed (inStep_served ?_ ?_ hv) _ _).quiet hn
    · exact hm
    · exact hb
  | ticked hw _ _ hn => exact ((hm.quiet hw).lasts (lasts_tickSlice _) rfl rfl).quiet hn
  | preempted hw _ _ hv hn =>
    exact (((hm.quiet hw).lasts (lasts_tickSlice _) rfl rfl).schedule hv).quiet hn
  | shutDown _ hn => exact (inStep_of_none rfl).quiet hn

theorem inStep_of_reachable (hm : Reachable m) : m.InStep :=
  hm.invariant (fun hk => inStep_of_none hk.current) fun hm hs h =>
    inStep_acted hs (bound_of_reachable hm) h

/-- Whenever an action has come to its end and a process has the CPU, the page directory that was
activated last is that process's. -/
theorem active_space (hm : Reachable m) (hc : m.kernel.current = some id) :
    ∃ p, m.kernel.processes.get? id = some p ∧
      m.activated.head? = some p.space.pageDirectory := by
  obtain ⟨p, hp, rfl, _⟩ := (bound_of_reachable hm).currentProcess? hc
  exact ⟨p, (currentProcess?_eq_some hp).2, inStep_of_reachable hm p hp⟩

/-- The first process ends itself, and the second one spawns a third, which gets the page directory
of the first, and makes way for it. -/
def succeeded : List Action :=
  .boot trialEntry :: calls 0 .spawn 0x2000 ++ calls 0 .kill 0 ++ calls 0 .spawn 0x3000 ++
    calls 0 .yieldCpu 0

/-- The page directory that was activated first is activated again for the process that got it. -/
theorem active_space_reused : ∃ m p, trial succeeded = .done m () ∧ m.kernel.current = some 3 ∧
    m.kernel.processes.get? 3 = some p ∧ m.activated.head? = some p.space.pageDirectory ∧
    m.activated.length = 3 ∧ m.activated.getLast? = some p.space.pageDirectory := by
  obtain ⟨m, hm, hcheck⟩ := Outcome.exists_of_endsIn (trial succeeded)
    (fun m => m.kernel.current == some 3 && m.activated.length == 3 &&
      m.activated.getLast? == m.activated.head?)
    (by decide +kernel)
  simp only [Bool.and_eq_true, beq_iff_eq] at hcheck
  obtain ⟨⟨hc, hlength⟩, hlast⟩ := hcheck
  obtain ⟨p, hp, hactive⟩ := active_space (.trial hm) hc
  exact ⟨m, p, hm, hc, hp, hactive, hlength, hlast.trans hactive⟩

end Machine
end Nucleus
