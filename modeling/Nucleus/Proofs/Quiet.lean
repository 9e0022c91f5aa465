import Nucleus.Machine.Traps
import Nucleus.Proofs.Table

/-!
# Nucleus.Proofs.Quiet

What goes on around the processes without any of them being created, ended, blocked, answered or
given the CPU: events and wakeups reach them, deadlines pass, the clock ticks, lines are hooked and
memory is written. All of it is one relation, so that it has to be looked at only once.

* `Process.Roused`: what a process keeps meanwhile. Its sleep may end; nothing else of its state,
  its registers, its address space or its wait changes.
* `Registry.Roused`: the same for all processes of a registry.
* `Machine.Quiet`: no process but for that, and nothing of the frame, the CPU's owner, the frame
  pool and the scheduler's choice, is changed.
* `quiet_settle`, `quiet_dispatch`, `quiet_arriveAll`: deliveries, interrupts and all that arrives
  during a wait are quiet.
-/

namespace Nucleus

namespace Process

/-- What a process keeps while events and wakeups reach it. -/
structure Roused (p q : Process) : Prop where
  id : q.id = p.id
  parent : q.parent = p.parent
  privileged : q.privileged = p.privileged
  context : q.context = p.context
  space : q.space = p.space
  waitTarget : q.waitTarget = p.waitTarget
  waitResult : q.waitResult = p.waitResult
  state : q.state = p.state ∨ p.state = .sleeping ∧ q.state = .ready

namespace Roused

variable {p q s : Process}

theorem refl (p : Process) : p.Roused p :=
  ⟨rfl, rfl, rfl, rfl, rfl, rfl, rfl, .inl rfl⟩

theorem trans (h : p.Roused q) (h' : q.Roused s) : p.Roused s := by
  refine ⟨h'.id.trans h.id, h'.parent.trans h.parent, h'.privileged.trans h.privileged,
    h'.context.trans h.context, h'.space.trans h.space, h'.waitTarget.trans h.waitTarget,
    h'.waitResult.trans h.waitResult, ?_⟩
  rcases h.state with e | ⟨e, e'⟩
  · rw [← e]
    exact h'.state
  · rcases h'.state with f | ⟨f, _⟩
    · exact .inr ⟨e, f.trans e'⟩
    · rw [e'] at f
      cases f

/-- Only a sleep ends. -/
theorem state_eq (h : p.Roused q) (hp : p.state ≠ .sleeping) : q.state = p.state := by
  rcases h.state with e | ⟨e, _⟩
  · exact e
  · exact absurd e hp

theorem running_iff (h : p.Roused q) : q.state = .running ↔ p.state = .running := by
  rcases h.state with e | ⟨e, e'⟩
  · rw [e]
  · rw [e, e']
    constructor <;> intro hs <;> cases hs

theorem waiting_iff (h : p.Roused q) : q.state = .waiting ↔ p.state = .waiting := by
  rcases h.state with e | ⟨e, e'⟩
  · rw [e]
  · rw [e, e']
    constructor <;> intro hs <;> cases hs

end Roused

theorem roused_wake (p : Process) : p.Roused p.wake := by
  unfold wake
  split
  · rename_i hs
    exact ⟨rfl, rfl, rfl, rfl, rfl, rfl, rfl, .inr ⟨hs, rfl⟩⟩
  · exact ⟨rfl, rfl, rfl, rfl, rfl, rfl, rfl, .inl rfl⟩

theorem roused_receive (e : Event) (p : Process) : p.Roused (p.receive e) := by
  have h : p.Roused { p with events := p.events.push e } :=
    ⟨rfl, rfl, rfl, rfl, rfl, rfl, rfl, .inl rfl⟩
  exact h.trans (roused_wake _)

theorem roused_dropEvent (p : Process) : p.Roused p.dropEvent :=
  ⟨rfl, rfl, rfl, rfl, rfl, rfl, rfl, .inl rfl⟩

theorem state_of_isOverdue {now : Instant} {p : Process} (h : p.isOverdue now = true) :
    p.state = .sleeping := by
  unfold isOverdue at h
  split at h
  · rw [Bool.and_eq_true] at h
    exact of_decide_eq_true h.1
  · cases h

theorem roused_checkTimer (now : Instant) (p : Process) : p.Roused (p.checkTimer now) := by
  unfold checkTimer
  split
  · rename_i h
    exact ⟨rfl, rfl, rfl, rfl, rfl, rfl, rfl, .inr ⟨state_of_isOverdue h, rfl⟩⟩
  · exact .refl p

/-- A request to sleep that uses up a pending wakeup leaves the process able to run. -/
theorem roused_sleep {p : Process} (h : p.sleepOutcome = .alreadyWoken) (t : SleepTimer) :
    p.Roused (p.sleep t) := by
  unfold sleep
  rw [h]
  exact ⟨rfl, rfl, rfl, rfl, rfl, rfl, rfl, .inl rfl⟩

end Process

namespace Registry

/-- The same identifiers, and under each one a process that was roused at most. -/
abbrev Roused (r s : Registry) : Prop :=
  Rel Process.Roused r s

theorem Roused.refl (r : Registry) : r.Roused r :=
  Rel.refl Process.Roused.refl r

theorem Roused.trans {r s t : Registry} (h : r.Roused s) (h' : s.Roused t) : r.Roused t :=
  h.comp h' Process.Roused.trans

theorem roused_deliverAll (items : List (ProcessId × Event)) :
    ∀ r : Registry, r.Roused (r.deliverAll items) := by
  induction items with
  | nil => exact Roused.refl
  | cons item rest ih =>
    intro r
    have h : r.Roused (r.deliver item.1 item.2) :=
      rel_modify Process.Roused.refl _ fun p _ => Process.roused_receive item.2 p
    exact h.trans (ih _)

theorem roused_wakeExpired (r : Registry) (now : Instant) : r.Roused (r.wakeExpired now) :=
  rel_map (Process.roused_checkTimer now)

end Registry

namespace Machine

/-- Processes are roused at most, and who has the CPU, what it runs, whom the scheduler chose last
and which page directories are free stays as it is. -/
structure Quiet (m n : Machine) : Prop where
  config : n.kernel.config = m.kernel.config
  processes : m.kernel.processes.Roused n.kernel.processes
  current : n.kernel.current = m.kernel.current
  cursor : n.kernel.scheduler.cursor = m.kernel.scheduler.cursor
  timeSlice : n.kernel.scheduler.timeSlice = m.kernel.scheduler.timeSlice
  remaining : n.kernel.scheduler.remaining = m.kernel.scheduler.remaining
  switches : n.kernel.scheduler.switches = m.kernel.scheduler.switches
  frames : n.kernel.frames = m.kernel.frames
  booted : n.kernel.booted = m.kernel.booted
  frame : n.frame = m.frame
  activated : n.activated = m.activated

theorem Quiet.refl (m : Machine) : m.Quiet m :=
  ⟨rfl, .refl _, rfl, rfl, rfl, rfl, rfl, rfl, rfl, rfl, rfl⟩

theorem Quiet.trans {m n o : Machine} (h : m.Quiet n) (h' : n.Quiet o) : m.Quiet o :=
  ⟨h'.config.trans h.config, h.processes.trans h'.processes, h'.current.trans h.current,
    h'.cursor.trans h.cursor, h'.timeSlice.trans h.timeSlice, h'.remaining.trans h.remaining,
    h'.switches.trans h.switches, h'.frames.trans h.frames, h'.booted.trans h.booted,
    h'.frame.trans h.frame, h'.activated.trans h.activated⟩

theorem quiet_note (m : Machine) (n : Note) : m.Quiet (m.note n) :=
  ⟨rfl, .refl _, rfl, rfl, rfl, rfl, rfl, rfl, rfl, rfl, rfl⟩

theorem quiet_report (m : Machine) (notes : List Note) : m.Quiet (m.report notes) :=
  ⟨rfl, .refl _, rfl, rfl, rfl, rfl, rfl, rfl, rfl, rfl, rfl⟩

theorem quiet_locks (m : Machine) (locks : Locks) : m.Quiet { m with locks } :=
  ⟨rfl, .refl _, rfl, rfl, rfl, rfl, rfl, rfl, rfl, rfl, rfl⟩

theorem quiet_setDevices (m : Machine) (devices : Devices) : m.Quiet (m.setDevices devices) :=
  ⟨rfl, .refl _, rfl, rfl, rfl, rfl, rfl, rfl, rfl, rfl, rfl⟩

theorem quiet_setVectors (m : Machine) (vectors : VectorTable) : m.Quiet (m.setVectors vectors) :=
  m.quiet_setDevices _

theorem quiet_setMemory (m : Machine) (memory : UserMemory) :
    m.Quiet (m.setKernel { m.kernel with memory }) :=
  ⟨rfl, .refl _, rfl, rfl, rfl, rfl, rfl, rfl, rfl, rfl, rfl⟩

theorem quiet_modifyProcess {m : Machine} {id : ProcessId} {f : Process → Process}
    (hf : ∀ p, (f p).id = p.id) (h : ∀ p, m.kernel.processes.get? id = some p → p.Roused (f p)) :
    m.Quiet (m.modifyProcess id f hf) :=
  ⟨rfl, Registry.rel_modify Process.Roused.refl hf h, rfl, rfl, rfl, rfl, rfl, rfl, rfl, rfl, rfl⟩

theorem quiet_startWait (m : Machine) : m.Quiet m.startWait :=
  ⟨rfl, .refl _, rfl, rfl, rfl, rfl, rfl, rfl, rfl, rfl, rfl⟩

theorem quiet_deliverEvents (m : Machine) : m.Quiet m.deliverEvents :=
  ⟨rfl, Registry.roused_deliverAll _ _, rfl, rfl, rfl, rfl, rfl, rfl, rfl, rfl, rfl⟩

theorem quiet_wakeExpired (m : Machine) : m.Quiet m.wakeExpired := by
  unfold wakeExpired Kernel.wakeExpired
  split
  · exact m.quiet_report _
  · exact ⟨rfl, Registry.roused_wakeExpired _ _, rfl, rfl, rfl, rfl, rfl, rfl, rfl, rfl, rfl⟩

theorem quiet_settle (m : Machine) : m.Quiet m.settle :=
  m.quiet_deliverEvents.trans (quiet_wakeExpired _)

/-! ### Behind the locks -/

/-- What is quiet under the vector table's lock is quiet. -/
theorem quiet_withController {α : Type} {m n : Machine} {a : α} {body : Machine → Machine × α}
    (hbody : ∀ m : Machine, m.Quiet (body m).1) (h : m.withController body = .done n a) :
    m.Quiet n := by
  unfold withController at h
  split at h
  · cases h
  · cases h
    exact ((m.quiet_locks _).trans (hbody _)).trans (quiet_locks _ _)

/-- What is quiet under the route's lock is quiet. -/
theorem quiet_withRoute {α : Type} {m n : Machine} {a : α} {body : Machine → Outcome α}
    (hbody : ∀ {m n : Machine} {a : α}, body m = .done n a → m.Quiet n)
    (h : m.withRoute body = .done n a) : m.Quiet n := by
  unfold withRoute at h
  split at h
  · cases h
  · obtain ⟨n', b, hb, hn⟩ := Outcome.andThen_eq_done_iff.1 h
    cases hn
    exact ((m.quiet_locks _).trans (hbody hb)).trans (quiet_locks _ _)

/-- What is quiet while the slot is locked is quiet. -/
theorem quiet_withSlot {α : Type} {m n : Machine} {a : α} {body : Machine → Outcome α}
    (hbody : ∀ {m n : Machine} {a : α}, body m = .done n a → m.Quiet n)
    (h : m.withSlot body = .done n a) : m.Quiet n := by
  unfold withSlot at h
  split at h
  · cases h
  · obtain ⟨n', b, hb, hn⟩ := Outcome.andThen_eq_done_iff.1 h
    cases hn
    exact ((m.quiet_locks _).trans (hbody hb)).trans (quiet_locks _ _)

theorem quiet_dispatch {m n : Machine} {frame : Registers} {count : Nat}
    (h : m.dispatch frame = .done n count) : m.Quiet n :=
  quiet_withController (fun m => (m.quiet_setDevices _).trans (quiet_report _ _)) h

theorem quiet_hookLine {m n : Machine} {owner : ProcessId} {line : Word}
    {r : Except LineError Unit} (h : m.hookLine owner line = .done n r) : m.Quiet n := by
  refine quiet_withController (fun m => ?_) h
  split
  · exact .refl m
  · exact (m.quiet_setVectors _).trans (quiet_note _ _)

theorem quiet_setLine {m n : Machine} {line : Word} {on : Bool} {r : Except LineError Unit}
    (h : m.setLine line on = .done n r) : m.Quiet n := by
  refine quiet_withController (fun m => ?_) h
  split
  · exact .refl m
  · exact (m.quiet_setVectors _).trans (quiet_note _ _)

theorem quiet_dropHooks (m : Machine) (owner : ProcessId) : m.Quiet (m.dropHooks owner) := by
  unfold dropHooks unhook
  simp only
  split
  · exact (m.quiet_setVectors _).trans (quiet_note _ _)
  · exact m.quiet_setVectors _

theorem quiet_dropHooksOfAll (ids : List ProcessId) :
    ∀ m : Machine, m.Quiet (m.dropHooksOfAll ids) := by
  induction ids with
  | nil => exact Quiet.refl
  | cons id rest ih => exact fun m => (m.quiet_dropHooks id).trans (ih _)

/-! ### What arrives during a wait -/

theorem quiet_tick {m n : Machine} {u : Unit} (h : m.tick = .done n u) : m.Quiet n := by
  unfold tick at h
  split at h
  · cases h
  · cases h
    exact m.quiet_setDevices _

theorem quiet_routeTick {m n : Machine} {u : Unit} (h : m.routeTick = .done n u) : m.Quiet n := by
  refine quiet_withRoute (fun {m n u} h => ?_) h
  split at h
  · exact quiet_tick h
  · cases h
    exact .refl m

theorem quiet_interruptEntry {m n : Machine} {frame : Registers} {u : Unit}
    (h : m.interruptEntry frame = .done n u) : m.Quiet n := by
  refine quiet_withRoute (fun {m n u} h => ?_) h
  split at h
  · obtain ⟨n', count, hd, hn⟩ := Outcome.andThen_eq_done_iff.1 h
    cases hn
    exact quiet_dispatch hd
  · cases h
    exact .refl m

theorem quiet_arrive {m n : Machine} {a : Arrival} {u : Unit} (h : m.arrive a = .done n u) :
    m.Quiet n := by
  cases a with
  | tick =>
    simp only [arrive] at h
    split at h
    · exact quiet_routeTick h
    · exact quiet_tick h
  | interrupt vector =>
    simp only [arrive] at h
    split at h
    · exact quiet_interruptEntry h
    · obtain ⟨n', count, hd, hn⟩ := Outcome.andThen_eq_done_iff.1 h
      cases hn
      exact quiet_dispatch hd

theorem quiet_arriveAll {as : List Arrival} :
    ∀ {m n : Machine} {u : Unit}, m.arriveAll as = .done n u → m.Quiet n := by
  induction as with
  | nil =>
    intro m n u h
    cases h
    exact .refl m
  | cons a rest ih =>
    intro m n u h
    obtain ⟨n', u', ha, hrest⟩ := Outcome.andThen_eq_done_iff.1 h
    exact (quiet_arrive ha).trans (ih hrest)

end Machine
end Nucleus
