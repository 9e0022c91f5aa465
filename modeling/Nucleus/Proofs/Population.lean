import Nucleus.Proofs.Creation

/-!
# Nucleus.Proofs.Population

Who comes and who goes. Most of what a kernel does leaves alone which processes there are, whose
children they are, what page directories they have and which frames are left in the pool; all of
that is one relation. What remains of an action is at most one creation, one removal, or the release
of all processes at once.

* `Process.Lasting`: what stays with a process for as long as it exists.
* `Machine.Lasts`: nobody comes or goes, and no frame does.
* `Machine.Turnover`, `turnover_acted`: what an action does to the population, and that it does one
  of these things.
-/

namespace Nucleus

/-- What stays with a process for as long as it exists. -/
structure Process.Lasting (p q : Process) : Prop where
  parent : q.parent = p.parent
  directory : q.space.pageDirectory = p.space.pageDirectory

namespace Process.Lasting

variable {p q s : Process}

theorem refl (p : Process) : p.Lasting p :=
  ⟨rfl, rfl⟩

theorem trans (h : p.Lasting q) (h' : q.Lasting s) : p.Lasting s :=
  ⟨h'.parent.trans h.parent, h'.directory.trans h.directory⟩

theorem of_roused (h : p.Roused q) : p.Lasting q :=
  ⟨h.parent, by rw [h.space]⟩

end Process.Lasting

theorem lasting_afterExit (ended : ProcessId) (status : Word) (p : Process) :
    p.Lasting (Kernel.afterExit ended status p) := by
  unfold Kernel.afterExit
  split <;> exact ⟨rfl, rfl⟩

/-- A process that has the parent already is not changed by being given it. -/
theorem Registry.lasting_setParent {r : Registry} {id parent : ProcessId}
    (h : ∀ p, r.get? id = some p → p.parent = parent) :
    Rel Process.Lasting (r.modify id (Process.setParent parent)) r := by
  intro j
  rw [get?_modify]
  cases hp : r.get? j with
  | none => split <;> exact .none
  | some p =>
    split
    · rename_i hj
      subst hj
      exact .some ⟨h p hp, rfl⟩
    · exact .some (.refl p)

namespace Machine

variable {m n o : Machine} {id caller target : ProcessId} {op : Operation} {c : Completion}

theorem lasting_suspended (m : Machine) (p : Process) : p.Lasting (m.suspended p) := by
  unfold suspended
  split <;> exact ⟨rfl, rfl⟩

theorem lasting_passes {p q : Process} (h : m.Passes id p q) : p.Lasting q := by
  obtain ⟨u, hu, _, rfl⟩ := h
  have hroused := (m.lasting_suspended p).trans (.of_roused hu)
  split
  · exact hroused.trans ⟨rfl, rfl⟩
  · exact hroused

/-- Nobody comes or goes, and no frame does. -/
structure Lasts (m n : Machine) : Prop where
  processes : Registry.Rel Process.Lasting m.kernel.processes n.kernel.processes
  frames : n.kernel.frames = m.kernel.frames

theorem Lasts.refl (m : Machine) : m.Lasts m :=
  ⟨.refl Process.Lasting.refl _, rfl⟩

theorem Lasts.trans (h : m.Lasts n) (h' : n.Lasts o) : m.Lasts o :=
  ⟨h.processes.comp h'.processes Process.Lasting.trans, h'.frames.trans h.frames⟩

theorem lasts_quiet (h : m.Quiet n) : m.Lasts n :=
  ⟨h.processes.imp Process.Lasting.of_roused, h.frames⟩

theorem lasts_schedule (h : m.schedule = .done n id) : m.Lasts n :=
  ⟨(decision_of_schedule h).table.imp lasting_passes, (decision_of_schedule h).frames⟩

theorem lasts_modify {f : Process → Process} {hf : ∀ p, (f p).id = p.id}
    (h : ∀ p, m.kernel.processes.get? id = some p → p.Lasting (f p)) :
    m.Lasts (m.modifyProcess id f hf) :=
  ⟨Registry.rel_modify Process.Lasting.refl hf h, rfl⟩

theorem lasts_tickSlice (m : Machine) : m.Lasts m.tickSlice :=
  ⟨.refl Process.Lasting.refl _, rfl⟩

theorem lasts_completed (m : Machine) (caller : ProcessId) (c : Completion) :
    m.Lasts (m.completed caller c) := by
  cases c with
  | deferred => exact .refl m
  | ready r =>
    show m.Lasts (m.answer caller r.encode)
    unfold answer
    split
    · exact ⟨.refl Process.Lasting.refl _, rfl⟩
    · exact lasts_modify fun _ _ => ⟨rfl, rfl⟩

/-- The action creates a process, if any, with this parent: a boot has none to give, and a request
to spawn gives the process with the CPU. -/
inductive Begets (m : Machine) : Action → ProcessId → Prop where
  | booted {entry : VirtAddr} : Begets m (.boot entry) .nobody
  | spawned {caller target : ProcessId} {entry : VirtAddr} : m.kernel.current = some caller →
      m.asked m.frame.request = some (target, .spawn entry) → Begets m .request caller

/-- What an action does to the population. -/
inductive Turnover (m : Machine) (a : Action) (n : Machine) : Prop where
  | same : m.Lasts n → Turnover m a n
  | born {entry : VirtAddr} {map : StackMap} {privileged : Bool} {p : Process} {k : Kernel}
      {parent : ProcessId} :
      m.kernel.create entry map privileged = .ok (p, k) → m.Begets a parent →
      ((m.setKernel k).modifyProcess p.id (Process.setParent parent)).Lasts n → Turnover m a n
  | ended {id : ProcessId} {status : Word} {k : Kernel} :
      m.kernel.remove id status = .ok k → (m.setKernel k).Lasts n → Turnover m a n
  | released {w : Machine} : m.Lasts w → w.releaseAll.1.Lasts n → Turnover m a n

theorem Turnover.after {a : Action} (h : m.Turnover a n) (h' : n.Lasts o) : m.Turnover a o := by
  cases h with
  | same hn => exact .same (hn.trans h')
  | born hk hparent hn => exact .born hk hparent (hn.trans h')
  | ended hk hn => exact .ended hk (hn.trans h')
  | released hw hn => exact .released hw (hn.trans h')

/-- The operation is performed on a machine that has the same kernel, before which the request in
the frame was noted. -/
theorem turnover_performed {w : Machine} (hkernel : w.kernel = m.kernel)
    (hc : m.kernel.current = some caller) (hasked : m.asked m.frame.request = some (target, op))
    (h : w.Performed caller target op n c) : m.Turnover .request n := by
  have hw : m.Lasts w := by
    refine ⟨?_, by rw [hkernel]⟩
    rw [hkernel]
    exact .refl Process.Lasting.refl _
  cases h with
  | quietly _ hq => exact .same (hw.trans (lasts_quiet hq))
  | spawned hk hn _ =>
    rw [hkernel] at hk
    refine .born hk (.spawned hc hasked) ⟨?_, ?_⟩
    · rw [hn]
      exact .refl Process.Lasting.refl _
    · rw [hn]
      rfl
  | killed hk hq hs =>
    rw [hkernel] at hk
    have hn := (lasts_quiet hq).trans (lasts_schedule hs)
    exact .ended hk ⟨hn.processes, hn.frames⟩
  | waited _ hs =>
    have hblocked : w.Lasts (w.modifyProcess caller (Process.waitFor target)) :=
      lasts_modify fun _ _ => ⟨rfl, rfl⟩
    exact .same ((hw.trans hblocked).trans (lasts_schedule hs))
  | slept _ hf hs =>
    refine .same ((hw.trans (lasts_modify fun p hp => ?_)).trans (lasts_schedule hs))
    rw [hf p hp]
    exact ⟨rfl, rfl⟩
  | yielded hs => exact .same (hw.trans (lasts_schedule hs))
  | @stackSet stack _ hn =>
    rw [hn]
    have hset : w.Lasts (w.modifyProcess target (Process.setUserStack stack)) :=
      lasts_modify fun _ _ => ⟨rfl, rfl⟩
    exact .same (hw.trans ⟨hset.processes, hset.frames⟩)

theorem turnover_acted {a : Action} (h : m.Acted a n) : m.Turnover a n := by
  cases h with
  | computed => exact .same ⟨.refl Process.Lasting.refl _, rfl⟩
  | quietly _ _ hq => exact .same (lasts_quiet hq)
  | @booted _ p k _ _ _ _ hk hw hv hn =>
    have hcreated := Kernel.creates_of_create hk
    have hparent : ∀ q, k.processes.get? p.id = some q → q.parent = .nobody := fun q hq => by
      rw [hcreated.get?, if_pos rfl] at hq
      cases hq
      rw [hcreated.process]
      rfl
    -- A new process has no parent yet, so giving it none changes nothing.
    exact .born hk .booted (Lasts.trans ⟨Registry.lasting_setParent hparent, rfl⟩
      (((lasts_quiet hw).trans (lasts_schedule hv)).trans (lasts_quiet hn)))
  | requested hp _ hv hn =>
    refine Turnover.after ?_ ((lasts_completed _ _ _).trans (lasts_quiet hn))
    obtain ⟨p', hp', ⟨_, hq, _⟩ | ⟨target, op, note, w, hasked, _, hw, hq⟩⟩ := serve_done hv
    · exact .same ⟨(lasts_quiet hq).processes, (lasts_quiet hq).frames⟩
    · have hc := (currentProcess?_eq_some hp').1
      exact Turnover.after (turnover_performed (m := m) (by rfl) hc hasked hw) (lasts_quiet hq)
  | ticked hw _ _ hn =>
    exact .same (((lasts_quiet hw).trans (lasts_tickSlice _)).trans (lasts_quiet hn))
  | preempted hw _ _ hv hn =>
    exact .same ((((lasts_quiet hw).trans (lasts_tickSlice _)).trans (lasts_schedule hv)).trans
      (lasts_quiet hn))
  | shutDown hw hn => exact .released (lasts_quiet hw) (lasts_quiet hn)

/-- Whoever is there has been there, or is the one process that came. -/
theorem Turnover.came {a : Action} (h : m.Turnover a n) {q : Process}
    (hq : n.kernel.processes.get? id = some q) :
    (∃ p, m.kernel.processes.get? id = some p ∧ p.Lasting q) ∨
      m.kernel.nextId? = some id ∧ m.Begets a q.parent := by
  cases h with
  | same hn =>
    obtain ⟨p, hp, hpq⟩ := hn.processes.back hq
    exact .inl ⟨p, hp, hpq⟩
  | @born _ _ _ c k parent hk hparent hn =>
    obtain ⟨_, hid, _⟩ := Kernel.create_eq_ok hk
    obtain ⟨p, hp, hpq⟩ := hn.processes.back hq
    replace hp : (k.processes.modify c.id (Process.setParent parent)).get? id = some p := hp
    rw [Registry.get?_modify, (Kernel.creates_of_create hk).get?] at hp
    by_cases hc : c.id = id
    · rw [if_pos hc.symm, if_pos hc] at hp
      cases hp
      refine .inr ⟨hc ▸ hid, ?_⟩
      rw [hpq.parent]
      exact hparent
    · rw [if_neg (Ne.symm hc), if_neg hc] at hp
      exact .inl ⟨p, hp, hpq⟩
  | @ended _ _ k hk hn =>
    obtain ⟨p, hp, hpq⟩ := hn.processes.back hq
    replace hp : k.processes.get? id = some p := hp
    rw [Kernel.get?_removed hk] at hp
    split at hp
    · cases hp
    · obtain ⟨o, ho, rfl⟩ := Option.map_eq_some_iff.1 hp
      exact .inl ⟨o, ho, (lasting_afterExit _ _ o).trans hpq⟩
  | released _ hn =>
    obtain ⟨p, hp, _⟩ := hn.processes.back hq
    cases hp

end Machine
end Nucleus
