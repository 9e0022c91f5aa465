import Nucleus.Proofs.Fault
import Nucleus.Proofs.Run

/-!
# Nucleus.Proofs.Binding

Who has the CPU. Between two actions the CPU has no owner exactly when there are no processes, and
else its owner exists, runs, and is the only process that does (`bound_of_reachable`). In the middle
of an operation only half of that is true, which is what a scheduling decision needs to restore the
other half (`bound_of_decision`).

* `Kernel.Bound`: what holds between two actions.
* `Kernel.OnlyCurrentRuns`: what holds all the time.
* `cpu_bound`: what both come to for a caller of the kernel. A request finds a process that has the
  CPU as long as there is any process.
-/

namespace Nucleus

namespace Kernel

/-- A process that runs has the CPU. -/
def OnlyCurrentRuns (k : Kernel) : Prop :=
  ∀ id p, k.processes.get? id = some p → p.state = .running → k.current = some id

/-- The process with the CPU exists and is the one that runs; without processes nobody has it. -/
structure Bound (k : Kernel) : Prop where
  running_iff : ∀ {id p}, k.processes.get? id = some p → (p.state = .running ↔ k.current = some id)
  current : ∀ {id}, k.current = some id → ∃ p, k.processes.get? id = some p
  idle : k.current = none → ∀ id, k.processes.get? id = none

variable {k k' : Kernel} {id : ProcessId} {p : Process}

theorem Bound.onlyCurrentRuns (h : k.Bound) : k.OnlyCurrentRuns :=
  fun _ _ hp => (h.running_iff hp).1

theorem Bound.currentProcess? (h : k.Bound) (hc : k.current = some id) :
    ∃ p, k.currentProcess? = some p ∧ p.id = id ∧ p.state = .running := by
  obtain ⟨p, hp⟩ := h.current hc
  refine ⟨p, ?_, Registry.id_of_get? hp, (h.running_iff hp).2 hc⟩
  unfold Kernel.currentProcess?
  rw [hc]
  exact hp

/-- The binding is kept where the same processes run. -/
theorem Bound.of_rel (h : k.Bound) (hc : k'.current = k.current)
    (ht : Registry.Rel (fun p q => q.state = .running ↔ p.state = .running)
      k.processes k'.processes) : k'.Bound := by
  refine ⟨fun {id q} hq => ?_, fun {id} hid => ?_, fun hn id => ?_⟩
  · obtain ⟨p, hp, hpq⟩ := ht.back hq
    rw [hc, hpq]
    exact h.running_iff hp
  · rw [hc] at hid
    obtain ⟨p, hp⟩ := h.current hid
    obtain ⟨q, hq, _⟩ := ht.forth hp
    exact ⟨q, hq⟩
  · rw [hc] at hn
    exact ht.eq_none_iff.2 (h.idle hn id)

theorem OnlyCurrentRuns.modify (h : k.OnlyCurrentRuns) {f : Process → Process}
    {hf : ∀ p, (f p).id = p.id}
    (hs : ∀ p, k.processes.get? id = some p → (f p).state = .running → p.state = .running) :
    ({ k with processes := k.processes.modify id f hf } : Kernel).OnlyCurrentRuns := by
  intro j q hq hrun
  rw [Registry.get?_modify] at hq
  split at hq
  · rename_i hj
    subst hj
    obtain ⟨p, hp, rfl⟩ := Option.map_eq_some_iff.1 hq
    exact h j p hp (hs p hp hrun)
  · exact h j q hq hrun

theorem OnlyCurrentRuns.create {entry : VirtAddr} {privileged : Bool}
    (h : k.OnlyCurrentRuns) (hk : k.Creates entry privileged p k') : k'.OnlyCurrentRuns := by
  intro j q hq hrun
  rw [hk.get?] at hq
  split at hq
  · cases hq
    rw [hk.process] at hrun
    cases hrun
  · rw [hk.kernel]
    exact h j q hq hrun

theorem OnlyCurrentRuns.remove {status : Word} (h : k.OnlyCurrentRuns)
    (hk : k.remove id status = .ok k') : k'.OnlyCurrentRuns := by
  intro j q hq hrun
  rw [get?_removed hk] at hq
  split at hq
  · cases hq
  · rename_i hne
    obtain ⟨p, hp, rfl⟩ := Option.map_eq_some_iff.1 hq
    have hstate : p.state = .running := by
      unfold afterExit at hrun
      split at hrun
      · cases hrun
      · exact hrun
    have hc := h j p hp hstate
    obtain ⟨_, _, rfl⟩ := remove_eq_ok hk
    show (if k.current = some id then none else k.current) = some j
    rw [if_neg, hc]
    -- The process that runs is not the one removed, so the CPU stays with it.
    rw [hc]
    intro e
    cases e
    exact hne rfl

theorem Bound.of_none (hc : k.current = none) (hp : ∀ id, k.processes.get? id = none) :
    k.Bound := by
  refine ⟨fun {id p} hq => ?_, fun {id} hj => ?_, fun _ => hp⟩
  · rw [hp] at hq
    cases hq
  · rw [hc] at hj
    cases hj

theorem Fresh.bound (h : k.Fresh) : k.Bound :=
  .of_none h.current h.get?

/-- A new process beside one that runs leaves the binding as it is. -/
theorem Bound.create {entry : VirtAddr} {privileged : Bool} (h : k.Bound)
    (hc : k.current = some id) (hk : k.Creates entry privileged p k') : k'.Bound := by
  have hcurrent : k'.current = some id := by rw [hk.kernel]; exact hc
  obtain ⟨q, hq⟩ := h.current hc
  have hne := hk.ne hq
  refine ⟨fun {j u} hu => ?_, fun {j} hj => ?_, fun hn => ?_⟩
  · rw [hk.get?] at hu
    split at hu
    · rename_i hj
      cases hu
      rw [hcurrent, hk.process]
      constructor
      · intro e
        cases e
      · intro e
        cases e
        exact absurd hj hne
    · rw [hcurrent, ← hc]
      exact h.running_iff hu
  · rw [hcurrent] at hj
    cases hj
    exact ⟨q, by rw [hk.get?, if_neg hne]; exact hq⟩
  · rw [hcurrent] at hn
    cases hn

end Kernel

namespace Machine

variable {m n : Machine} {id : ProcessId}

theorem onlyCurrentRuns_of_quiet (h : m.Quiet n) (hm : m.kernel.OnlyCurrentRuns) :
    n.kernel.OnlyCurrentRuns := by
  intro j q hq hrun
  obtain ⟨p, hp, hpq⟩ := h.processes.back hq
  rw [h.current]
  exact hm j p hp (hpq.running_iff.1 hrun)

theorem bound_of_quiet (h : m.Quiet n) (hm : m.kernel.Bound) : n.kernel.Bound :=
  hm.of_rel h.current (h.processes.imp Process.Roused.running_iff)

theorem state_suspended (hm : m.kernel.OnlyCurrentRuns) {p : Process}
    (hp : m.kernel.processes.get? id = some p) : (m.suspended p).state ≠ .running := by
  unfold suspended
  rw [Registry.id_of_get? hp]
  split
  · unfold Process.suspend
    simp only
    split
    · intro e
      cases e
    · assumption
  · rename_i hc
    exact fun e => hc (hm id p hp e)

/-- A scheduling decision binds the CPU, wherever it is made. -/
theorem bound_of_decision (h : m.Decision n id) (hm : m.kernel.OnlyCurrentRuns) :
    n.kernel.Bound := by
  obtain ⟨p, hp, hrun, _⟩ := h.selected
  refine ⟨fun {j q} hq => ?_, fun {j} hj => ?_, fun hn => ?_⟩
  · rw [h.current]
    constructor
    · -- Whoever ran before was suspended, so only the process selected runs.
      intro hq'
      obtain ⟨o, ho, u, hu, _, rfl⟩ := h.table.back hq
      have hid := Registry.id_of_get? ho
      by_cases hj : o.id = id
      · rw [← hid, hj]
      · rw [if_neg hj] at hq'
        exact absurd (hu.running_iff.1 hq') (state_suspended hm ho)
    · intro e
      cases e
      rw [hp] at hq
      cases hq
      exact hrun
  · rw [h.current] at hj
    cases hj
    exact ⟨p, hp⟩
  · rw [h.current] at hn
    cases hn

theorem bound_of_schedule (h : m.schedule = .done n id) (hm : m.kernel.OnlyCurrentRuns) :
    n.kernel.Bound :=
  bound_of_decision (decision_of_schedule h) hm

/-! ### Every action keeps the binding -/

theorem bound_of_performed {caller target : ProcessId} {op : Operation} {c : Completion}
    (hm : m.kernel.Bound) (hc : m.kernel.current = some caller)
    (h : m.Performed caller target op n c) : n.kernel.Bound := by
  cases h with
  | quietly _ hq => exact bound_of_quiet hq hm
  | spawned hk hn _ =>
    have hbound := hm.create hc (Kernel.creates_of_create hk)
    rw [hn]
    exact hbound.of_rel rfl
      (Registry.rel_modify (fun _ => Iff.rfl) (Process.id_setParent caller) fun _ _ => Iff.rfl)
  | killed hk hq hs =>
    exact bound_of_schedule hs (onlyCurrentRuns_of_quiet hq (hm.onlyCurrentRuns.remove hk))
  | waited _ hs =>
    refine bound_of_schedule hs (hm.onlyCurrentRuns.modify fun p _ hrun => ?_)
    cases hrun
  | slept _ hf hs =>
    refine bound_of_schedule hs (hm.onlyCurrentRuns.modify fun p hp hrun => ?_)
    rw [hf p hp] at hrun
    cases hrun
  | yielded hs => exact bound_of_schedule hs hm.onlyCurrentRuns
  | stackSet hn =>
    rw [hn]
    exact hm.of_rel rfl
      (Registry.rel_modify (fun _ => Iff.rfl) (Process.id_setUserStack _) fun _ _ => Iff.rfl)

theorem bound_of_serve {q : Request} {c : Completion} (hm : m.kernel.Bound)
    (h : m.serve q = .done n c) : n.kernel.Bound := by
  obtain ⟨p, hp, ⟨_, hq, _⟩ | ⟨target, op, note, v, _, _, hv, hq⟩⟩ := serve_done h
  · exact bound_of_quiet hq hm
  · exact bound_of_quiet hq
      (bound_of_performed (m := m.note note) hm (currentProcess?_eq_some hp).1 hv)

theorem bound_completed (hm : m.kernel.Bound) (id : ProcessId) (c : Completion) :
    (m.completed id c).kernel.Bound := by
  cases c with
  | deferred => exact hm
  | ready r =>
    show (m.answer id r.encode).kernel.Bound
    unfold answer
    split
    · exact hm
    · exact hm.of_rel rfl
        (Registry.rel_modify (fun _ => Iff.rfl) (Process.id_answer _) fun _ _ => Iff.rfl)

theorem bound_of_acted {a : Action} (hm : m.kernel.Bound) (h : m.Acted a n) : n.kernel.Bound := by
  cases h with
  | computed => exact hm.of_rel rfl (Registry.Rel.refl (fun _ => Iff.rfl) _)
  | quietly _ _ hq => exact bound_of_quiet hq hm
  | booted hk hw hv hn =>
    have hone := hm.onlyCurrentRuns.create (Kernel.creates_of_create hk)
    exact bound_of_quiet hn (bound_of_schedule hv (onlyCurrentRuns_of_quiet hw hone))
  | requested _ _ hv hn =>
    refine bound_of_quiet hn (bound_completed (bound_of_serve ?_ hv) _ _)
    exact hm
  | ticked hw _ _ hn =>
    have hbound := bound_of_quiet hw hm
    exact bound_of_quiet hn (hbound.of_rel rfl (Registry.Rel.refl (fun _ => Iff.rfl) _))
  | preempted hw _ _ hv hn =>
    have hbound := bound_of_quiet hw hm
    exact bound_of_quiet hn (bound_of_schedule hv hbound.onlyCurrentRuns)
  | shutDown _ hn => exact bound_of_quiet hn (.of_none rfl Registry.get?_empty)

theorem bound_of_reachable (hm : Reachable m) : m.kernel.Bound :=
  hm.invariant Kernel.Fresh.bound fun _ => bound_of_acted

/-! ### What a caller sees -/

theorem current_eq_none_iff (hm : m.kernel.Bound) :
    m.kernel.current = none ↔ m.kernel.processes.isEmpty = true := by
  rw [Registry.isEmpty_iff]
  constructor
  · exact hm.idle
  · intro h
    cases hc : m.kernel.current with
    | none => rfl
    | some id =>
      obtain ⟨p, hp⟩ := hm.current hc
      rw [h] at hp
      cases hp

theorem exists_currentProcess? (hm : m.kernel.Bound)
    (h : m.kernel.processes.isEmpty = false) : ∃ p, m.kernel.currentProcess? = some p := by
  cases hc : m.kernel.current with
  | none =>
    rw [(current_eq_none_iff hm).1 hc] at h
    cases h
  | some id =>
    obtain ⟨p, hp, _⟩ := hm.currentProcess? hc
    exact ⟨p, hp⟩

/-- Between two actions the CPU is without an owner exactly while there are no processes; its owner
exists and is the one process that runs; and as long as there is a process, no request, whatever is
in the registers, ends in the fault that nobody has the CPU. -/
theorem cpu_bound (hm : Reachable m) :
    (m.kernel.current = none ↔ m.kernel.processes.isEmpty = true) ∧
    (∀ id, m.kernel.current = some id →
      (∃ p, m.kernel.processes.get? id = some p ∧ p.state = .running) ∧
      ∀ j q, m.kernel.processes.get? j = some q → q.state = .running → j = id) ∧
    (m.kernel.processes.isEmpty = false →
      (∀ q journal, m.withKernel (fun m => m.serve q) ≠ .fault .noProcessBound journal) ∧
      ∀ frame journal, ({ m with frame } : Machine).act .request ≠
        .fault .noProcessBound journal) := by
  have hbound := bound_of_reachable hm
  refine ⟨current_eq_none_iff hbound, fun id hc => ⟨?_, fun j q hq hrun => ?_⟩, fun h => ?_⟩
  · obtain ⟨p, hp⟩ := hbound.current hc
    exact ⟨p, hp, (hbound.running_iff hp).2 hc⟩
  · have hj := (hbound.running_iff hq).1 hrun
    rw [hc] at hj
    cases hj
    rfl
  · obtain ⟨p, hp⟩ := exists_currentProcess? hbound h
    refine ⟨fun q journal hf => ?_, fun frame journal hf => ?_⟩
    · have hserve : (m.withKernel fun m => m.serve q).FaultsInDecision :=
        faultsInDecision_withKernel fun locks =>
          faultsInDecision_serve (m := { m with locks }) (p := p) hp q
      cases hserve _ _ hf
    · have hrequest : (({ m with frame } : Machine).withKernel request).FaultsInDecision :=
        faultsInDecision_withKernel fun locks =>
          faultsInDecision_request (m := { m with frame, locks }) (p := p) hp
      cases hrequest _ _ hf

theorem cpu_bound_booted : ∃ m, trial [.boot trialEntry] = .done m () ∧
    m.kernel.processes.isEmpty = false ∧ m.kernel.current = some 1 ∧
    (∃ p, m.kernel.processes.get? 1 = some p ∧ p.state = .running) ∧
    ∀ frame journal, ({ m with frame } : Machine).act .request ≠
      .fault .noProcessBound journal := by
  obtain ⟨m, hm, hcheck⟩ := Outcome.exists_of_endsIn
    (trial [.boot trialEntry])
    (fun m => !m.kernel.processes.isEmpty && m.kernel.current == some 1)
    (by decide +kernel)
  simp only [Bool.and_eq_true, Bool.not_eq_true', beq_iff_eq] at hcheck
  obtain ⟨hne, hcurrent⟩ := hcheck
  obtain ⟨_, howner, hserved⟩ := cpu_bound (.trial hm)
  exact ⟨m, hm, hne, hcurrent, (howner 1 hcurrent).1, (hserved hne).2⟩

end Machine
end Nucleus
