import Nucleus.Proofs.Quiet

/-!
# Nucleus.Proofs.Decision

What a scheduling decision does. It has three parts: the process with the CPU is suspended, quiet
things happen until a process is ready, and the process selected gets the CPU.

* `schedule_done`: a decision that comes to an end has these three parts.
* `Decision`: what that means for the table of processes, the frame and the scheduler.
-/

namespace Nucleus

namespace RoundRobin

variable {s s' : RoundRobin} {r : Registry} {p : Process}

theorem mem_readyIn : p ∈ readyIn r ↔ p ∈ r.toList ∧ p.state = .ready := by
  unfold readyIn
  rw [List.mem_filter]
  simp

theorem mem_of_next? (h : s.next? r = some p) : p ∈ readyIn r := by
  unfold next? at h
  simp only at h
  split at h
  · exact List.mem_of_head? h
  · split at h
    · rename_i hf
      cases h
      exact List.mem_of_find?_eq_some hf
    · exact List.mem_of_head? h

/-- The process selected is a ready one of the registry. -/
theorem select_eq_some (h : s.select r = some (p, s')) :
    s.next? r = some p ∧ r.get? p.id = some p ∧ p.state = .ready ∧ s' = s.selected p.id := by
  unfold select at h
  split at h
  · cases h
  · rename_i q hq
    cases h
    have hmem := mem_readyIn.1 (mem_of_next? hq)
    exact ⟨hq, Registry.get?_eq_some_iff.2 ⟨hmem.1, rfl⟩, hmem.2, rfl⟩

end RoundRobin

namespace Machine

theorem kernel_giveCpu (m : Machine) (active : Option PhysAddr) (p : Process) (s : RoundRobin) :
    (m.giveCpu active p s).kernel = { m.kernel with
      processes := m.kernel.processes.modify p.id Process.run, current := some p.id
      scheduler := s } := by
  unfold giveCpu
  simp only
  split <;> rfl

theorem frame_giveCpu (m : Machine) (active : Option PhysAddr) (p : Process) (s : RoundRobin) :
    (m.giveCpu active p s).frame = p.context := by
  unfold giveCpu
  simp only
  split <;> rfl

/-- Quiet things happen until a process is ready, and it gets the CPU. -/
theorem selectNext_done {active : Option PhysAddr} {waits : List (List Arrival)} :
    ∀ {m n : Machine} {id : ProcessId}, selectNext active waits m = .done n id →
      ∃ (w : Machine) (p : Process) (s : RoundRobin) (rest : List (List Arrival)),
        m.Quiet w ∧ w.kernel.scheduler.select w.kernel.processes = some (p, s) ∧ p.id = id ∧
          n = { w.giveCpu active p s with idle := rest } := by
  induction waits with
  | nil =>
    intro m n id h
    unfold selectNext at h
    simp only at h
    split at h
    · rename_i p s hs
      cases h
      exact ⟨_, p, s, [], m.quiet_settle, hs, rfl, rfl⟩
    · cases h
  | cons wait waits ih =>
    intro m n id h
    unfold selectNext at h
    simp only at h
    split at h
    · rename_i p s hs
      cases h
      exact ⟨_, p, s, _, m.quiet_settle, hs, rfl, rfl⟩
    · obtain ⟨m', u, ha, hn⟩ := Outcome.andThen_eq_done_iff.1 h
      obtain ⟨w, p, s, rest, hq, hs, hid, hw⟩ := ih hn
      have hwait : m.Quiet m' :=
        (m.quiet_settle.trans (quiet_startWait _)).trans (quiet_arriveAll ha)
      exact ⟨w, p, s, rest, hwait.trans hq, hs, hid, hw⟩

/-- The parts of a decision. -/
theorem schedule_done {m n : Machine} {id : ProcessId} (h : m.schedule = .done n id) :
    m.kernel.booted = true ∧ ∃ (w : Machine) (p : Process) (s : RoundRobin)
      (active : Option PhysAddr) (rest : List (List Arrival)),
        m.suspendCurrent.Quiet w ∧ w.kernel.scheduler.select w.kernel.processes = some (p, s) ∧
          p.id = id ∧ n = { w.giveCpu active p s with idle := rest } := by
  unfold schedule at h
  split at h
  · rename_i hb
    obtain ⟨w, p, s, rest, hq, hs, hid, hn⟩ := selectNext_done h
    exact ⟨hb, w, p, s, _, rest, hq, hs, hid, hn⟩
  · cases h

/-! ### The table of processes -/

theorem get?_modifyProcess {m : Machine} {id : ProcessId} {f : Process → Process}
    {hf : ∀ p, (f p).id = p.id} (j : ProcessId) :
    (m.modifyProcess id f hf).kernel.processes.get? j =
      if j = id then (m.kernel.processes.get? j).map f else m.kernel.processes.get? j := by
  show (m.kernel.processes.modify id f hf).get? j = _
  rw [Registry.get?_modify]

theorem get?_giveCpu (m : Machine) (active : Option PhysAddr) (p : Process) (s : RoundRobin)
    (j : ProcessId) :
    (m.giveCpu active p s).kernel.processes.get? j =
      if j = p.id then (m.kernel.processes.get? j).map Process.run
      else m.kernel.processes.get? j := by
  rw [kernel_giveCpu]
  show (m.kernel.processes.modify p.id Process.run).get? j = _
  rw [Registry.get?_modify]

/-- A process after the CPU was taken from it, if it has the CPU. -/
def suspended (m : Machine) (p : Process) : Process :=
  if m.kernel.current = some p.id then p.suspend m.frame else p

@[simp] theorem config_suspendCurrent (m : Machine) :
    m.suspendCurrent.kernel.config = m.kernel.config := by
  unfold suspendCurrent
  split <;> rfl

@[simp] theorem frames_suspendCurrent (m : Machine) :
    m.suspendCurrent.kernel.frames = m.kernel.frames := by
  unfold suspendCurrent
  split <;> rfl

@[simp] theorem booted_suspendCurrent (m : Machine) :
    m.suspendCurrent.kernel.booted = m.kernel.booted := by
  unfold suspendCurrent
  split <;> rfl

@[simp] theorem scheduler_suspendCurrent (m : Machine) :
    m.suspendCurrent.kernel.scheduler = m.kernel.scheduler := by
  unfold suspendCurrent
  split <;> rfl

theorem get?_suspendCurrent (m : Machine) (id : ProcessId) :
    m.suspendCurrent.kernel.processes.get? id =
      (m.kernel.processes.get? id).map m.suspended := by
  unfold suspendCurrent
  cases hp : m.kernel.processes.get? id with
  | none =>
    split
    · rw [hp]
      rfl
    · rw [get?_modifyProcess, hp]
      split <;> rfl
  | some p =>
    have hid := Registry.id_of_get? hp
    unfold suspended
    split
    · rename_i hc
      rw [hp, hc]
      rfl
    · rename_i c hc
      rw [get?_modifyProcess, hp, hc]
      by_cases hj : id = c
      · subst hj
        simp [hid]
      · have hne : ¬ c = id := fun e => hj e.symm
        simp [hid, hj, hne]

/-- What a decision for `id` makes of a process: it is suspended, perhaps roused, and has the CPU if
it is the one selected. -/
def Passes (m : Machine) (id : ProcessId) (p q : Process) : Prop :=
  ∃ u, (m.suspended p).Roused u ∧ (p.id = id → u.state = .ready) ∧
    q = if p.id = id then u.run else u

/-- What a scheduling decision for `id` does. -/
structure Decision (m n : Machine) (id : ProcessId) : Prop where
  config : n.kernel.config = m.kernel.config
  frames : n.kernel.frames = m.kernel.frames
  booted : n.kernel.booted = true
  current : n.kernel.current = some id
  selected : ∃ p, n.kernel.processes.get? id = some p ∧ p.state = .running ∧ p.context = n.frame
  cursor : n.kernel.scheduler.cursor = some id
  timeSlice : n.kernel.scheduler.timeSlice = m.kernel.scheduler.timeSlice
  remaining : n.kernel.scheduler.remaining = m.kernel.scheduler.timeSlice
  switches : n.kernel.scheduler.switches = m.kernel.scheduler.switches + 1
  table : Registry.Rel (m.Passes id) m.kernel.processes n.kernel.processes

theorem decision_of_schedule {m n : Machine} {id : ProcessId} (h : m.schedule = .done n id) :
    m.Decision n id := by
  obtain ⟨hb, w, p, s, active, rest, hq, hs, rfl, rfl⟩ := schedule_done h
  obtain ⟨_, hp, hready, rfl⟩ := RoundRobin.select_eq_some hs
  constructor
  · show (giveCpu ..).kernel.config = _
    rw [kernel_giveCpu]
    exact hq.config.trans m.config_suspendCurrent
  · show (giveCpu ..).kernel.frames = _
    rw [kernel_giveCpu]
    exact hq.frames.trans m.frames_suspendCurrent
  · show (giveCpu ..).kernel.booted = _
    rw [kernel_giveCpu]
    exact (hq.booted.trans m.booted_suspendCurrent).trans hb
  · show (giveCpu ..).kernel.current = _
    rw [kernel_giveCpu]
  · refine ⟨p.run, ?_, rfl, (frame_giveCpu ..).symm⟩
    show (giveCpu ..).kernel.processes.get? _ = _
    rw [get?_giveCpu, if_pos rfl, hp]
    rfl
  · show (giveCpu ..).kernel.scheduler.cursor = _
    rw [kernel_giveCpu]
    rfl
  · show (giveCpu ..).kernel.scheduler.timeSlice = _
    rw [kernel_giveCpu, ← m.scheduler_suspendCurrent]
    exact hq.timeSlice
  · show (giveCpu ..).kernel.scheduler.remaining = _
    rw [kernel_giveCpu, ← m.scheduler_suspendCurrent]
    exact hq.timeSlice
  · show (giveCpu ..).kernel.scheduler.switches = _
    rw [kernel_giveCpu, ← m.scheduler_suspendCurrent, ← hq.switches]
    rfl
  · refine .of_get? (fun {j o} ho => ?_) fun {j} hnone => ?_
    · have hsuspended : m.suspendCurrent.kernel.processes.get? j = some (m.suspended o) := by
        rw [get?_suspendCurrent, ho]
        rfl
      obtain ⟨u, hu, hroused⟩ := hq.processes.forth hsuspended
      have hid := Registry.id_of_get? ho
      refine ⟨if o.id = p.id then u.run else u, ?_, u, hroused, fun he => ?_, rfl⟩
      · show (giveCpu ..).kernel.processes.get? j = _
        rw [get?_giveCpu, hu, hid]
        split <;> rfl
      · rw [← hid, he, hp] at hu
        cases hu
        exact hready
    · have hgone : w.kernel.processes.get? j = none := by
        refine hq.processes.eq_none_iff.2 ?_
        rw [get?_suspendCurrent, hnone]
        rfl
      show (giveCpu ..).kernel.processes.get? j = none
      rw [get?_giveCpu, hgone]
      split <;> rfl

end Machine
end Nucleus
