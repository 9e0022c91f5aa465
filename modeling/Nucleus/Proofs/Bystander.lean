import Nucleus.Proofs.Binding

/-!
# Nucleus.Proofs.Bystander

What becomes of a process that does not have the CPU while others act. It is removed, or the end
of its target ends its wait, or it goes on as it was: able to run, or waiting for the same process.

* `Process.Alike`: it goes on as it was. That says nothing about a sleep, which may end at any time.
* `Machine.leaves`: what an action leaves of a process.
* `bystander_acted`: that is what is found afterwards, if the process did not have the CPU.
-/

namespace Nucleus

namespace Process

/-- The process is not blocked. -/
def canRun (p : Process) : Prop :=
  p.state = .ready ∨ p.state = .running

/-- A process goes on as it was, able to run or waiting for the same process. -/
structure Alike (p q : Process) : Prop where
  canRun : p.canRun → q.canRun
  waiting_iff : q.state = .waiting ↔ p.state = .waiting
  waitTarget : q.waitTarget = p.waitTarget
  waitResult : q.waitResult = p.waitResult

variable {p q s : Process}

theorem Alike.trans (h : p.Alike q) (h' : q.Alike s) : p.Alike s :=
  ⟨fun hp => h'.canRun (h.canRun hp), h'.waiting_iff.trans h.waiting_iff,
    h'.waitTarget.trans h.waitTarget, h'.waitResult.trans h.waitResult⟩

/-- It does where its state and its wait stay. -/
theorem alike_of_eq (hs : q.state = p.state) (ht : q.waitTarget = p.waitTarget)
    (hr : q.waitResult = p.waitResult) : p.Alike q := by
  refine ⟨fun hp => ?_, by rw [hs], ht, hr⟩
  unfold canRun
  rw [hs]
  exact hp

theorem Alike.refl (p : Process) : p.Alike p :=
  alike_of_eq rfl rfl rfl

theorem alike_roused (h : p.Roused q) : p.Alike q := by
  refine ⟨fun hp => ?_, h.waiting_iff, h.waitTarget, h.waitResult⟩
  have hstate : q.state = p.state := h.state_eq fun e => by
    rcases hp with hp | hp <;> rw [e] at hp <;> cases hp
  unfold canRun
  rw [hstate]
  exact hp

theorem alike_suspend (frame : Registers) (p : Process) : p.Alike (p.suspend frame) := by
  unfold suspend
  constructor
  · rintro (hp | hp)
    · left
      simp only [hp]
      rfl
    · left
      simp only [if_pos hp]
  · simp only
    split
    · rename_i hs
      rw [hs]
      constructor <;> intro e <;> cases e
    · rfl
  · rfl
  · rfl

theorem alike_run (hp : p.state = .ready) : p.Alike p.run := by
  refine ⟨fun _ => .inr rfl, ?_, rfl, rfl⟩
  rw [hp]
  constructor <;> intro e <;> cases e

end Process

/-- What an operation on `target` leaves of a process. -/
def Operation.leaves (op : Operation) (target : ProcessId) (p : Process) : Option Process :=
  match op with
  | kill status => if p.id = target then none else some (Kernel.afterExit target status p)
  | _ => some p

theorem Operation.leaves_of_writesRegisters {op : Operation} (h : op.writesRegisters = false)
    (target : ProcessId) (p : Process) : op.leaves target p = some p := by
  cases op <;> first | rfl | cases h

namespace Machine

/-- What an action leaves of a process that does not have the CPU. -/
def leaves (m : Machine) (a : Action) (p : Process) : Option Process :=
  match a with
  | .request =>
    match m.asked m.frame.request with
    | some (target, op) => op.leaves target p
    | none => some p
  | .shutdown => none
  | _ => some p

variable {m n o : Machine} {id caller target : ProcessId} {p : Process} {op : Operation}
  {c : Completion}

theorem alike_passes {q : Process} (h : m.Passes id p q) : p.Alike q := by
  obtain ⟨u, hu, hready, rfl⟩ := h
  have hsuspended : p.Alike (m.suspended p) := by
    unfold suspended
    split
    · exact Process.alike_suspend _ p
    · exact .refl p
  refine (hsuspended.trans (Process.alike_roused hu)).trans ?_
  split
  · rename_i hid
    exact Process.alike_run (hready hid)
  · exact .refl u

/-- All processes go on as they were. -/
def Goes (m n : Machine) : Prop :=
  Registry.Rel Process.Alike m.kernel.processes n.kernel.processes

theorem Goes.trans (h : m.Goes n) (h' : n.Goes o) : m.Goes o :=
  h.comp h' Process.Alike.trans

theorem goes_quiet (h : m.Quiet n) : m.Goes n :=
  h.processes.imp Process.alike_roused

theorem goes_schedule (h : m.schedule = .done n id) : m.Goes n :=
  (decision_of_schedule h).table.imp alike_passes

theorem goes_modify (m : Machine) (id : ProcessId) {f : Process → Process}
    {hf : ∀ p, (f p).id = p.id} (h : ∀ p : Process, p.Alike (f p)) :
    m.Goes (m.modifyProcess id f hf) :=
  Registry.rel_modify Process.Alike.refl hf fun p _ => h p

theorem goes_completed (m : Machine) (caller : ProcessId) (c : Completion) :
    m.Goes (m.completed caller c) := by
  cases c with
  | deferred => exact .refl Process.Alike.refl _
  | ready r =>
    show m.Goes (m.answer caller r.encode)
    unfold answer
    split
    · exact Registry.Rel.refl Process.Alike.refl _
    · exact m.goes_modify caller fun _ => Process.alike_of_eq rfl rfl rfl

theorem goes_tickSlice (m : Machine) : m.Goes m.tickSlice :=
  Registry.Rel.refl Process.Alike.refl _

/-- What is found under an identifier goes on from what was left there. -/
def Finds (n : Machine) (id : ProcessId) (left : Option Process) : Prop :=
  Option.Rel Process.Alike left (n.kernel.processes.get? id)

theorem Finds.goes {left : Option Process} (h : m.Finds id left) (h' : m.Goes n) :
    n.Finds id left := by
  unfold Finds at h ⊢
  have hid := h' id
  generalize m.kernel.processes.get? id = x at h hid
  generalize n.kernel.processes.get? id = y at hid
  cases h with
  | none =>
    cases hid
    exact .none
  | some hp =>
    cases hid with
    | some hq => exact .some (hp.trans hq)

theorem finds_of_get? (hp : m.kernel.processes.get? id = some p) : m.Finds id (some p) := by
  unfold Finds
  rw [hp]
  exact .some (.refl p)

theorem finds_modify {f : Process → Process} {hf : ∀ p, (f p).id = p.id}
    (hp : m.kernel.processes.get? id = some p) (hne : id ≠ target) :
    (m.modifyProcess target f hf).Finds id (some p) := by
  refine finds_of_get? ?_
  rw [get?_modifyProcess, if_neg hne, hp]

theorem finds_create {k : Kernel} {p' : Process} {entry : VirtAddr} {privileged : Bool}
    (hk : m.kernel.Creates entry privileged p' k) (hp : m.kernel.processes.get? id = some p) :
    (m.setKernel k).Finds id (some p) := by
  refine finds_of_get? ?_
  show k.processes.get? id = some p
  rw [hk.get?, if_neg (hk.ne hp), hp]

theorem finds_remove {k : Kernel} {status : Word} (hk : m.kernel.remove target status = .ok k)
    (hp : m.kernel.processes.get? id = some p) :
    (m.setKernel k).Finds id ((Operation.kill status).leaves target p) := by
  unfold Finds Operation.leaves
  rw [show (m.setKernel k).kernel.processes.get? id = _ from Kernel.get?_removed hk id, hp,
    Registry.id_of_get? hp]
  simp only
  split
  · exact .none
  · exact .some (.refl _)

theorem finds_performed (hp : m.kernel.processes.get? id = some p) (hne : id ≠ caller)
    (h : m.Performed caller target op n c) : n.Finds id (op.leaves target p) := by
  cases h with
  | quietly hop hq =>
    rw [op.leaves_of_writesRegisters hop]
    exact (finds_of_get? hp).goes (goes_quiet hq)
  | @spawned entry p' k n hk hn _ =>
    refine (finds_create (Kernel.creates_of_create hk) hp).goes ?_
    unfold Goes
    rw [hn]
    exact (m.setKernel k).goes_modify p'.id fun _ => Process.alike_of_eq rfl rfl rfl
  | killed hk hq hs =>
    exact (finds_remove hk hp).goes ((goes_quiet hq).trans (goes_schedule hs))
  | waited _ hs => exact (finds_modify hp hne).goes (goes_schedule hs)
  | slept hop _ hs =>
    rw [op.leaves_of_writesRegisters hop]
    exact (finds_modify hp hne).goes (goes_schedule hs)
  | yielded hs => exact (finds_of_get? hp).goes (goes_schedule hs)
  | stackSet hn =>
    rw [hn]
    refine (finds_of_get? hp).goes ?_
    exact m.goes_modify target fun _ => Process.alike_of_eq rfl rfl rfl

theorem finds_served {q : Request} (hp : m.kernel.processes.get? id = some p)
    (hne : m.kernel.current ≠ some id) (h : m.serve q = .done n c) :
    n.Finds id (match m.asked q with
      | some (target, op) => op.leaves target p
      | none => some p) := by
  obtain ⟨caller, hcaller, ⟨hasked, hq, _⟩ | ⟨target, op, note, v, hasked, _, hv, hq⟩⟩ :=
    serve_done h
  · rw [hasked]
    exact (finds_of_get? hp).goes (goes_quiet hq)
  · rw [hasked]
    have hid : id ≠ caller.id := by
      rintro rfl
      exact hne (currentProcess?_eq_some hcaller).1
    exact (finds_performed (m := m.note note) hp hid hv).goes (goes_quiet hq)

theorem leaves_of_mayBeQuiet {a : Action} (h : a.mayBeQuiet = true) (p : Process) :
    m.leaves a p = some p := by
  cases a <;> first | rfl | cases h

/-- What an action leaves of a process without the CPU is found when the action is over. -/
theorem bystander_acted {a : Action} (hp : m.kernel.processes.get? id = some p)
    (hne : m.kernel.current ≠ some id) (h : m.Acted a n) : n.Finds id (m.leaves a p) := by
  cases h with
  | computed => exact finds_of_get? hp
  | quietly ha _ hq =>
    rw [leaves_of_mayBeQuiet ha]
    exact (finds_of_get? hp).goes (goes_quiet hq)
  | booted hk hw hv hn =>
    have hgoes := ((goes_quiet hw).trans (goes_schedule hv)).trans (goes_quiet hn)
    exact (finds_create (Kernel.creates_of_create hk) hp).goes hgoes
  | @requested locks p' v n c _ _ hv hn =>
    -- The process is not the caller, so the answer to the request is not for it.
    have hserved := finds_served (m := { m with locks }) hp hne hv
    exact hserved.goes ((goes_completed v _ c).trans (goes_quiet hn))
  | @ticked w _ hw _ _ hn =>
    have htick := w.goes_tickSlice
    exact (finds_of_get? hp).goes (((goes_quiet hw).trans htick).trans (goes_quiet hn))
  | @preempted w _ _ _ hw _ _ hv hn =>
    have htick := w.goes_tickSlice
    have hgoes := (htick.trans (goes_schedule hv)).trans (goes_quiet hn)
    exact (finds_of_get? hp).goes ((goes_quiet hw).trans hgoes)
  | shutDown _ hn =>
    unfold Finds
    rw [hn.processes.eq_none_iff.2 (Registry.get?_empty id)]
    exact .none

end Machine
end Nucleus
