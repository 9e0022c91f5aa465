import Mathlib.Data.Fintype.EquivFin
import Mathlib.Logic.Relation
import Mathlib.Order.WellFounded
import Nucleus.Proofs.Moved
import Nucleus.Proofs.Turns
import Nucleus.Proofs.Waits

/-!
# Nucleus.Proofs.Circle

Processes that wait for each other in a circle. Nobody can wait for itself, but longer circles are
not looked for: a process may ask to wait for one that already waits for it, directly or through
others. Such a request closes a circle, and nothing else does. As long as there is none, some
process is left that waits for no other.

* `Kernel.WaitsFor`, `Kernel.Acyclic`: the graph of waits, and that it has no circle.
* `Kernel.exists_not_waiting`: without a circle some process does not wait.
* `Machine.acyclic_act`: an action leaves the waits without a circle unless it closes one.
* `circle_of_waits`: the same for runs, and what it means for the idle loop of the scheduler.
-/

namespace Nucleus

namespace Kernel

/-- A process waits for another one to end. -/
def WaitsFor (k : Kernel) (a b : ProcessId) : Prop :=
  ∃ p, k.processes.get? a = some p ∧ p.state = .waiting ∧ p.waitTarget = some b

/-- Nobody is left to go on. -/
def AllWait (k : Kernel) : Prop :=
  ∀ id p, k.processes.get? id = some p → p.state = .waiting

/-- The kernel after a process began to wait. -/
def blocked (k : Kernel) (caller target : ProcessId) : Kernel :=
  { k with processes :=
      k.processes.modify caller (Process.waitFor target) (Process.id_waitFor target) }

/-- No process waits for itself, be it through others. -/
def Acyclic (k : Kernel) : Prop :=
  ∀ a, ¬ Relation.TransGen k.WaitsFor a a

variable {k k' : Kernel} {a b caller target id : ProcessId} {p : Process}

theorem Acyclic.mono (h : k.Acyclic) (hsub : ∀ {a b}, k'.WaitsFor a b → k.WaitsFor a b) :
    k'.Acyclic :=
  fun a ha => h a (Relation.TransGen.mono (fun _ _ => hsub) a a ha)

theorem acyclic_of_none (h : ∀ a b, ¬ k.WaitsFor a b) : k.Acyclic := by
  intro a ha
  obtain ⟨b, hab, _⟩ := Relation.TransGen.head'_iff.1 ha
  exact h a b hab

/-- A way over one more edge goes over the old edges only, or to the new one and on from there. -/
theorem transGen_of_added {R S : ProcessId → ProcessId → Prop}
    (hadd : ∀ {a b}, S a b → R a b ∨ a = caller ∧ b = target) (h : Relation.TransGen S a b) :
    Relation.TransGen R a b ∨
      Relation.ReflTransGen R a caller ∧ Relation.ReflTransGen R target b := by
  induction h with
  | single hab =>
    rcases hadd hab with hab | ⟨rfl, rfl⟩
    · exact .inl (.single hab)
    · exact .inr ⟨.refl, .refl⟩
  | tail _ hbc ih =>
    rcases hadd hbc with hbc | ⟨rfl, rfl⟩
    · exact ih.imp (fun hab => hab.tail hbc) fun ⟨hac, hbt⟩ => ⟨hac, hbt.tail hbc⟩
    · refine .inr ⟨?_, .refl⟩
      rcases ih with hab | ⟨hac, _⟩
      · exact hab.to_reflTransGen
      · exact hac

/-- One more wait closes a circle only if its target waits for the caller already. -/
theorem Acyclic.add (h : k.Acyclic) (hne : target ≠ caller)
    (hadd : ∀ {a b}, k'.WaitsFor a b → k.WaitsFor a b ∨ a = caller ∧ b = target)
    (hopen : ¬ Relation.TransGen k.WaitsFor target caller) :
    k'.Acyclic := by
  intro a ha
  rcases transGen_of_added hadd ha with hold | ⟨hac, hta⟩
  · exact h a hold
  · rcases Relation.reflTransGen_iff_eq_or_transGen.1 (hta.trans hac) with e | hback
    · exact hne e.symm
    · exact hopen hback

/-- Without circles the waits come to an end: among any processes there is one that waits for none
of them. -/
theorem Acyclic.wellFounded (h : k.Acyclic) :
    WellFounded fun b a => Relation.TransGen k.WaitsFor a b := by
  have : Finite ProcessId := Finite.of_injective UInt64.toFin fun _ _ => UInt64.toFin_inj.1
  have : IsTrans ProcessId fun b a => Relation.TransGen k.WaitsFor a b :=
    ⟨fun _ _ _ hba hcb => hcb.trans hba⟩
  have : Std.Irrefl fun b a => Relation.TransGen k.WaitsFor a b := ⟨h⟩
  exact Finite.wellFounded_of_trans_of_irrefl _

/-- Where the waits have no circle, some process does not wait. -/
theorem exists_not_waiting (h : k.Acyclic) (hw : k.Waits) (hp : k.processes.get? id = some p) :
    ∃ j q, k.processes.get? j = some q ∧ q.state ≠ .waiting := by
  obtain ⟨j, ⟨q, hq⟩, hlast⟩ :=
    h.wellFounded.has_min { j | ∃ q, k.processes.get? j = some q } ⟨id, p, hp⟩
  refine ⟨j, q, hq, fun hwaiting => ?_⟩
  obtain ⟨t, ht⟩ := (hw.waiting_iff hq).1 hwaiting
  exact hlast t (hw.target hq ht).2 (.single ⟨q, hq, hwaiting, ht⟩)

/-! ### The waits where the table changes -/

theorem waitsFor_of_rel (h : Registry.Rel (fun p q => (q.state = .waiting ↔ p.state = .waiting) ∧
    q.waitTarget = p.waitTarget) k.processes k'.processes) :
    k'.WaitsFor a b ↔ k.WaitsFor a b := by
  constructor
  · rintro ⟨q, hq, hs, ht⟩
    obtain ⟨p, hp, hstate, htarget⟩ := h.back hq
    exact ⟨p, hp, hstate.1 hs, htarget ▸ ht⟩
  · rintro ⟨p, hp, hs, ht⟩
    obtain ⟨q, hq, hstate, htarget⟩ := h.forth hp
    exact ⟨q, hq, hstate.2 hs, htarget.trans ht⟩

theorem waitsFor_create {entry : VirtAddr} {privileged : Bool}
    (hk : k.Creates entry privileged p k') (h : k'.WaitsFor a b) : k.WaitsFor a b := by
  obtain ⟨q, hq, hs, ht⟩ := h
  rw [hk.get?] at hq
  split at hq
  · cases hq
    rw [hk.process] at hs
    cases hs
  · exact ⟨q, hq, hs, ht⟩

theorem waitsFor_remove {status : Word} (hk : k.remove target status = .ok k')
    (h : k'.WaitsFor a b) : k.WaitsFor a b := by
  obtain ⟨q, hq, hs, ht⟩ := h
  rw [get?_removed hk] at hq
  split at hq
  · cases hq
  · obtain ⟨p, hp, rfl⟩ := Option.map_eq_some_iff.1 hq
    unfold afterExit at hs ht
    split at hs
    · cases hs
    · rename_i hnot
      rw [if_neg hnot] at ht
      exact ⟨p, hp, hs, ht⟩

/-- A process that is put to sleep does not wait. -/
theorem waitsFor_sleep {f : Process → Process} {hf : ∀ p, (f p).id = p.id}
    (hs : ∀ p, k.processes.get? caller = some p → (f p).state = .sleeping)
    (h : ({ k with processes := k.processes.modify caller f hf } : Kernel).WaitsFor a b) :
    k.WaitsFor a b := by
  obtain ⟨q, hq, hstate, ht⟩ := h
  rw [Registry.get?_modify] at hq
  split at hq
  · rename_i ha
    subst ha
    obtain ⟨p, hp, rfl⟩ := Option.map_eq_some_iff.1 hq
    rw [hs p hp] at hstate
    cases hstate
  · exact ⟨q, hq, hstate, ht⟩

theorem get?_blocked (k : Kernel) (caller target j : ProcessId) :
    (k.blocked caller target).processes.get? j =
      if j = caller then (k.processes.get? j).map (Process.waitFor target)
      else k.processes.get? j := by
  show (k.processes.modify caller (Process.waitFor target)).get? j = _
  rw [Registry.get?_modify]

theorem waitsFor_blocked (hc : ∃ p, k.processes.get? caller = some p) :
    (k.blocked caller target).WaitsFor a b ↔
      a = caller ∧ b = target ∨ a ≠ caller ∧ k.WaitsFor a b := by
  unfold WaitsFor
  simp only [get?_blocked]
  by_cases ha : a = caller
  · subst ha
    obtain ⟨p, hp⟩ := hc
    simp [hp, Process.waitFor, eq_comm]
  · simp [ha]

end Kernel

namespace Machine

variable {m n : Machine} {a b caller target id : ProcessId} {p : Process} {op : Operation}
  {c : Completion}

theorem waitsFor_goes (h : m.Goes n) : n.kernel.WaitsFor a b ↔ m.kernel.WaitsFor a b :=
  Kernel.waitsFor_of_rel (h.imp fun hpq => ⟨hpq.waiting_iff, hpq.waitTarget⟩)

/-- Only a request to wait begins a wait, and only that of its caller. -/
theorem waitsFor_performed (hcaller : ∃ p, m.kernel.processes.get? caller = some p)
    (h : m.Performed caller target op n c) (hn : n.kernel.WaitsFor a b) :
    m.kernel.WaitsFor a b ∨ op = .waitProcess ∧ caller ≠ target ∧ a = caller ∧ b = target := by
  cases h with
  | quietly _ hq => exact .inl ((waitsFor_goes (goes_quiet hq)).1 hn)
  | @spawned entry p k n hk hkernel _ =>
    left
    refine Kernel.waitsFor_create (Kernel.creates_of_create hk) ?_
    rw [hkernel] at hn
    exact (Kernel.waitsFor_of_rel (Registry.rel_modify (fun _ => ⟨Iff.rfl, rfl⟩)
      (Process.id_setParent caller) fun _ _ => ⟨Iff.rfl, rfl⟩)).1 hn
  | killed hk hq hs =>
    exact .inl (Kernel.waitsFor_remove hk
      ((waitsFor_goes ((goes_quiet hq).trans (goes_schedule hs))).1 hn))
  | waited hne hs =>
    have hblocked := (waitsFor_goes (goes_schedule hs)).1 hn
    rcases (Kernel.waitsFor_blocked hcaller).1 hblocked with ⟨ha, hb⟩ | ⟨_, hold⟩
    · exact .inr ⟨rfl, hne, ha, hb⟩
    · exact .inl hold
  | slept _ hsleep hs =>
    left
    refine Kernel.waitsFor_sleep (fun p hp => ?_) ((waitsFor_goes (goes_schedule hs)).1 hn)
    rw [hsleep p hp]
  | yielded hs => exact .inl ((waitsFor_goes (goes_schedule hs)).1 hn)
  | @stackSet stack n hn' =>
    left
    have hset : m.Goes (m.modifyProcess target (Process.setUserStack stack)) :=
      m.goes_modify target fun _ => Process.alike_of_eq rfl rfl rfl
    rw [hn'] at hn
    exact (waitsFor_goes hset).1 hn

/-- The process with the CPU asks to wait for another one. -/
def BeginsWait (m : Machine) (caller target : ProcessId) : Prop :=
  m.kernel.current = some caller ∧ caller ≠ target ∧
    m.asked m.frame.request = some (target, .waitProcess)

theorem waitsFor_acted {act : Action} (h : m.Acted act n) (hn : n.kernel.WaitsFor a b) :
    m.kernel.WaitsFor a b ∨ act = .request ∧ m.BeginsWait a b := by
  cases h with
  | computed => exact .inl hn
  | quietly _ _ hq => exact .inl ((waitsFor_goes (goes_quiet hq)).1 hn)
  | booted hk hw hv hq =>
    have hgoes := ((goes_quiet hw).trans (goes_schedule hv)).trans (goes_quiet hq)
    exact .inl (Kernel.waitsFor_create (Kernel.creates_of_create hk) ((waitsFor_goes hgoes).1 hn))
  | @requested locks p v n c _ _ hv hq =>
    have hserved := (waitsFor_goes ((goes_completed v p.id c).trans (goes_quiet hq))).1 hn
    obtain ⟨p', hp, ⟨_, hquiet, _⟩ | ⟨target, op, note, w, hasked, _, hw, hquiet⟩⟩ := serve_done hv
    · exact .inl ((waitsFor_goes (goes_quiet hquiet)).1 hserved)
    · obtain ⟨hc, hget⟩ := currentProcess?_eq_some hp
      have hperformed := (waitsFor_goes (goes_quiet hquiet)).1 hserved
      rcases waitsFor_performed (m := ({ m with locks } : Machine).note note) ⟨p', hget⟩ hw
        hperformed with hold | ⟨rfl, hne, rfl, rfl⟩
      · exact .inl hold
      · exact .inr ⟨rfl, hc, hne, hasked⟩
  | @ticked w n hw _ _ hq =>
    have hgoes := ((goes_quiet hw).trans w.goes_tickSlice).trans (goes_quiet hq)
    exact .inl ((waitsFor_goes hgoes).1 hn)
  | @preempted w v n id hw _ _ hv hq =>
    have hgoes := (w.goes_tickSlice.trans (goes_schedule hv)).trans (goes_quiet hq)
    exact .inl ((waitsFor_goes ((goes_quiet hw).trans hgoes)).1 hn)
  | shutDown _ hq =>
    obtain ⟨q, hget, _⟩ := (waitsFor_goes (goes_quiet hq)).1 hn
    cases hget

/-! ### A request to wait -/

/-- A request to wait for another process is a decision of the scheduler without the caller. -/
theorem request_waits (hp : m.kernel.currentProcess? = some p) (hne : p.id ≠ target)
    (h : m.asked m.frame.request = some (target, .waitProcess)) :
    ∃ w : Machine, w.kernel = m.kernel.blocked p.id target ∧
      m.request = w.schedule.andThen fun v _ => .done v () := by
  obtain ⟨code, hserve⟩ := serve_asked hp h
  let q := m.frame.request
  let noted := m.note (.requested p.id code q.target q.argument)
  refine ⟨noted.modifyProcess p.id (Process.waitFor target), rfl, ?_⟩
  unfold request withCurrent
  rw [hp]
  simp only
  rw [hserve]
  simp only [perform, waitProcess, if_neg hne, withCurrent]
  rw [show (m.note _).kernel.currentProcess? = some p from hp]
  simp only
  cases schedule _ <;> rfl

/-- A request to wait comes to an end if the decision does. -/
theorem act_waits (hm : Reachable m) (hw : m.BeginsWait caller target) :
    ∃ w : Machine, w.kernel = m.kernel.blocked caller target ∧
      (∀ {n}, m.act .request = .done n () →
        ∃ v id, w.schedule = .done v id ∧ n.kernel = v.kernel) ∧
      ∀ {v id}, w.schedule = .done v id → ∃ n, m.act .request = .done n () := by
  obtain ⟨hc, hne, hasked⟩ := hw
  obtain ⟨p, hp, rfl, _⟩ := (bound_of_reachable hm).currentProcess? hc
  obtain ⟨locks, give, hcall⟩ := withKernel_of_free (locks_of_reachable hm) request
  obtain ⟨w, hkernel, hrequest⟩ := request_waits (m := { m with locks }) hp hne hasked
  have hact : m.act .request = (w.schedule.andThen fun v _ => .done v ()).andThen
      fun n a => .done { n with locks := give n.locks } a := by
    rw [← hrequest]
    exact hcall
  rw [hact]
  refine ⟨w, hkernel, fun h => ?_, fun hs => ?_⟩
  · obtain ⟨v, u, hv, hn⟩ := Outcome.andThen_eq_done_iff.1 h
    obtain ⟨o, id, hs, ho⟩ := Outcome.andThen_eq_done_iff.1 hv
    cases ho
    cases hn
    exact ⟨v, id, hs, rfl⟩
  · rw [hs]
    exact ⟨_, rfl⟩

/-- The waits after a request to wait. -/
theorem waitsFor_begun (hm : Reachable m) (hw : m.BeginsWait caller target)
    (h : m.act .request = .done n ()) :
    n.kernel.WaitsFor a b ↔ a = caller ∧ b = target ∨ m.kernel.WaitsFor a b := by
  obtain ⟨w, hkernel, hdone, _⟩ := act_waits hm hw
  obtain ⟨v, id, hs, hv⟩ := hdone h
  obtain ⟨p, hget⟩ := (bound_of_reachable hm).current hw.1
  have hblocked : n.kernel.WaitsFor a b ↔ (m.kernel.blocked caller target).WaitsFor a b := by
    rw [hv, ← hkernel]
    exact waitsFor_goes (goes_schedule hs)
  rw [hblocked, Kernel.waitsFor_blocked ⟨p, hget⟩]
  refine or_congr Iff.rfl (and_iff_right_of_imp ?_)
  -- The caller has the CPU, so it does not wait yet.
  rintro ⟨q, hq, hwaiting, _⟩ rfl
  rw [((bound_of_reachable hm).running_iff hq).2 hw.1] at hwaiting
  cases hwaiting

/-! ### Circles -/

/-- The action is a request to wait for a process that waits for the caller, directly or through
others. -/
def ClosesCircle (m : Machine) (act : Action) : Prop :=
  act = .request ∧ ∃ caller target, m.BeginsWait caller target ∧
    Relation.TransGen m.kernel.WaitsFor target caller

theorem acyclic_act {act : Action} (hm : Reachable m) (hacyclic : m.kernel.Acyclic)
    (h : m.act act = .done n ()) : n.kernel.Acyclic ↔ ¬ m.ClosesCircle act := by
  have hwaits : ∀ {a b}, n.kernel.WaitsFor a b →
      m.kernel.WaitsFor a b ∨ act = .request ∧ m.BeginsWait a b := waitsFor_acted (act_done h)
  constructor
  · rintro hn ⟨rfl, caller, target, hbegins, hback⟩
    have hbegun : ∀ {a b}, n.kernel.WaitsFor a b ↔ a = caller ∧ b = target ∨
        m.kernel.WaitsFor a b := waitsFor_begun hm hbegins h
    have hpath : Relation.TransGen n.kernel.WaitsFor target caller :=
      Relation.TransGen.mono (fun _ _ hold => hbegun.2 (.inr hold)) _ _ hback
    exact hn caller (.head (hbegun.2 (.inl ⟨rfl, rfl⟩)) hpath)
  · intro hopen
    by_cases hbegins : act = .request ∧ ∃ caller target, m.BeginsWait caller target
    · obtain ⟨rfl, caller, target, hbegins⟩ := hbegins
      refine hacyclic.add hbegins.2.1.symm (fun hab => ?_)
        fun hback => hopen ⟨rfl, caller, target, hbegins, hback⟩
      refine (hwaits hab).imp_right fun ⟨_, hc, _, hasked⟩ => ?_
      obtain ⟨hc', _, hasked'⟩ := hbegins
      rw [hc'] at hc
      rw [hasked'] at hasked
      cases hc
      cases hasked
      exact ⟨rfl, rfl⟩
    · exact hacyclic.mono fun hab => (hwaits hab).resolve_right fun ⟨hact, hwait⟩ =>
        hbegins ⟨hact, _, _, hwait⟩

/-- No action of the run closes a circle. -/
def ClosesNone (m : Machine) : List (Action × Machine) → Prop
  | [] => True
  | (act, n) :: rest => ¬ m.ClosesCircle act ∧ n.ClosesNone rest

theorem acyclic_run {run : List (Action × Machine)} (h : Run m run) (hm : Reachable m)
    (hacyclic : m.kernel.Acyclic) : (∀ s ∈ run, s.2.kernel.Acyclic) ↔ m.ClosesNone run := by
  induction h with
  | nil => simp [ClosesNone]
  | @cons m n act rest ha _ ih =>
    have hstep := acyclic_act hm hacyclic ha
    rw [List.forall_mem_cons, ClosesNone, ← hstep]
    exact and_congr_right fun hn => ih (hm.act ha) hn

/-! ### What it means for the scheduler -/

theorem booted_performed (hm : m.kernel.booted = true) (h : m.Performed caller target op n c) :
    n.kernel.booted = true := by
  cases h with
  | quietly _ hq => rw [hq.booted, hm]
  | spawned hk hn _ =>
    rw [hn]
    show (Kernel.booted _) = true
    rw [(Kernel.creates_of_create hk).kernel]
  | killed _ _ hs => exact (decision_of_schedule hs).booted
  | waited _ hs => exact (decision_of_schedule hs).booted
  | slept _ _ hs => exact (decision_of_schedule hs).booted
  | yielded hs => exact (decision_of_schedule hs).booted
  | stackSet hn =>
    rw [hn]
    exact hm

theorem booted_acted {act : Action} (hm : m.kernel.current = none ∨ m.kernel.booted = true)
    (h : m.Acted act n) : n.kernel.current = none ∨ n.kernel.booted = true := by
  cases h with
  | computed => exact hm
  | quietly _ _ hq => rwa [hq.current, hq.booted]
  | booted _ _ hv hq => exact .inr (hq.booted.trans (decision_of_schedule hv).booted)
  | @requested locks p v n c hp _ hv hq =>
    right
    have hbooted : m.kernel.booted = true := hm.resolve_left fun hnone => by
      rw [(currentProcess?_eq_some hp).1] at hnone
      cases hnone
    have hcompleted : (v.completed p.id c).kernel.booted = v.kernel.booted := by
      cases c with
      | deferred => rfl
      | ready r =>
        show (v.answer p.id r.encode).kernel.booted = _
        unfold answer
        split <;> rfl
    rw [hq.booted, hcompleted]
    obtain ⟨p', _, ⟨_, hquiet, _⟩ | ⟨target, op, note, w, _, _, hw, hquiet⟩⟩ := serve_done hv
    · exact hquiet.booted.trans hbooted
    · exact hquiet.booted.trans
        (booted_performed (m := ({ m with locks } : Machine).note note) hbooted hw)
  | ticked hw _ _ hq =>
    rw [hq.current, hq.booted]
    exact hw.current ▸ hw.booted ▸ hm
  | preempted _ _ _ hv hq => exact .inr (hq.booted.trans (decision_of_schedule hv).booted)
  | shutDown _ hq => exact .inl hq.current

/-- Whoever has the CPU was created once. -/
theorem booted_of_reachable (hm : Reachable m) (hc : m.kernel.current = some id) :
    m.kernel.booted = true := by
  have h : m.kernel.current = none ∨ m.kernel.booted = true :=
    hm.invariant (P := fun m => m.kernel.current = none ∨ m.kernel.booted = true)
      (fun hk => .inl hk.current) fun _ hw => booted_acted hw
  refine h.resolve_left fun hnone => ?_
  rw [hc] at hnone
  cases hnone

/-- A decision comes to an end at once where a process is ready. -/
theorem schedule_of_ready (hb : m.kernel.booted = true) (hp : m.kernel.processes.get? id = some p)
    (hready : p.state = .ready) : ∃ n j, m.schedule = .done n j := by
  obtain ⟨q, hq, hqready⟩ := ready_of_suspendCurrent m.suspendCurrent.quiet_settle hp hready
  have hmem := RoundRobin.mem_readyIn.2 ⟨(Registry.get?_eq_some_iff.1 hq).1, hqready⟩
  have hselected := RoundRobin.isSome_next? (s := m.suspendCurrent.settle.kernel.scheduler) hmem
  obtain ⟨u, hu⟩ := Option.isSome_iff_exists.1 hselected
  unfold schedule
  rw [if_pos hb]
  unfold selectNext
  simp only [RoundRobin.select, hu]
  exact ⟨_, _, rfl⟩

/-- A decision does not come to an end where all processes wait, whatever arrives. -/
theorem schedule_ne_done (h : m.kernel.AllWait) (j : ProcessId) : m.schedule ≠ .done n j := by
  intro hs
  obtain ⟨p, hp, hrun, _⟩ := (decision_of_schedule hs).selected
  obtain ⟨q, hq, hpasses⟩ := (decision_of_schedule hs).table.back hp
  have hwaiting := (alike_passes hpasses).waiting_iff.2 (h j q hq)
  rw [hrun] at hwaiting
  cases hwaiting

theorem waits_blocked (hm : Reachable m) (hw : m.BeginsWait caller target) :
    (m.kernel.blocked caller target).Waits := by
  obtain ⟨_, hne, hasked⟩ := hw
  obtain ⟨p, code, hp, _, hu⟩ := asked_eq_some hasked
  have ht := isSome_of_understand (isSome_of_currentProcess? hp) hu
  exact (waits_of_reachable hm).waitFor hne.symm (Option.isSome_iff_exists.1 ht)

/-- Where a wait closes no circle, some process does not wait. -/
theorem not_allWait_blocked (hm : Reachable m) (hacyclic : m.kernel.Acyclic)
    (hw : m.BeginsWait caller target)
    (hopen : ¬ Relation.TransGen m.kernel.WaitsFor target caller) :
    ¬ (m.kernel.blocked caller target).AllWait := by
  obtain ⟨p, hp⟩ := (bound_of_reachable hm).current hw.1
  have hblocked : (m.kernel.blocked caller target).Acyclic :=
    hacyclic.add hw.2.1.symm
      (fun hab => ((Kernel.waitsFor_blocked ⟨p, hp⟩).1 hab).symm.imp_left And.right) hopen
  have hget : (m.kernel.blocked caller target).processes.get? caller = some (p.waitFor target) := by
    rw [Kernel.get?_blocked, if_pos rfl, hp]
    rfl
  obtain ⟨j, q, hq, hnot⟩ := Kernel.exists_not_waiting hblocked (waits_blocked hm hw) hget
  exact fun hall => hnot (hall j q hq)

/-- A process that neither waits nor sleeps besides the caller is ready. -/
theorem ready_blocked (hb : m.kernel.Bound) (hc : m.kernel.current = some caller)
    (hawake : ∀ id p, m.kernel.processes.get? id = some p → p.state ≠ .sleeping)
    (h : ¬ (m.kernel.blocked caller target).AllWait) :
    ∃ id p, (m.kernel.blocked caller target).processes.get? id = some p ∧ p.state = .ready := by
  unfold Kernel.AllWait at h
  push Not at h
  obtain ⟨id, p, hp, hnot⟩ := h
  refine ⟨id, p, hp, ?_⟩
  rw [Kernel.get?_blocked] at hp
  split at hp
  · obtain ⟨q, _, rfl⟩ := Option.map_eq_some_iff.1 hp
    exact absurd rfl hnot
  · rename_i hne
    cases hs : p.state with
    | ready => rfl
    | running =>
      have hrun := (hb.running_iff hp).1 hs
      rw [hc] at hrun
      exact absurd (Option.some.inj hrun).symm hne
    | sleeping => exact absurd hs (hawake id p hp)
    | waiting => exact absurd hs hnot

/-- The request returns if some process is left that neither waits nor sleeps. -/
theorem returns_of_ready (hm : Reachable m) (hw : m.BeginsWait caller target)
    (hready : ∃ id p, (m.kernel.blocked caller target).processes.get? id = some p ∧
      p.state = .ready) : ∃ n, m.act .request = .done n () := by
  obtain ⟨w, hkernel, _, hreturns⟩ := act_waits hm hw
  obtain ⟨id, p, hp, hready⟩ := hready
  have hbooted : w.kernel.booted = true := by
    rw [hkernel]
    exact booted_of_reachable hm hw.1
  rw [← hkernel] at hp
  obtain ⟨v, j, hs⟩ := schedule_of_ready hbooted hp hready
  exact hreturns hs

/-- The request does not return if all processes wait then. -/
theorem never_of_allWait (hm : Reachable m) (hw : m.BeginsWait caller target)
    (hall : (m.kernel.blocked caller target).AllWait) (n : Machine) :
    m.act .request ≠ .done n () := by
  obtain ⟨w, hkernel, hdone, _⟩ := act_waits hm hw
  intro h
  obtain ⟨v, id, hs, _⟩ := hdone h
  rw [← hkernel] at hall
  exact schedule_ne_done hall id hs

/-- What will arrive while the kernel idles next is open. -/
theorem reachable_idle (hm : Reachable m) (idle : List (List Arrival)) :
    Reachable { m with idle } :=
  hm.act (a := .compute m.frame m.kernel.memory idle) rfl

/-- From a new kernel on the waits have no circle just as long as no request closes one. A request
to wait that closes none leaves a process that does not wait, so it returns at once unless there are
sleepers; one after which all processes wait never returns, whatever arrives. -/
theorem circle_of_waits {config : Config} {pool : FramePool} {timed : Bool} {kernel : Kernel}
    {run : List (Action × Machine)} (hk : Kernel.build config pool timed = .ok kernel)
    (hrun : Run (.start kernel) run) :
    ((∀ s ∈ run, s.2.kernel.Acyclic) ↔ (start kernel).ClosesNone run) ∧
    ∀ s ∈ run, ∀ caller target, s.2.BeginsWait caller target →
      (s.2.kernel.Acyclic → ¬ Relation.TransGen s.2.kernel.WaitsFor target caller →
        ¬ (s.2.kernel.blocked caller target).AllWait ∧
          ((∀ id p, s.2.kernel.processes.get? id = some p → p.state ≠ .sleeping) →
            ∀ idle, ∃ n, ({ s.2 with idle } : Machine).act .request = .done n ())) ∧
      ((s.2.kernel.blocked caller target).AllWait →
        ∀ idle n, ({ s.2 with idle } : Machine).act .request ≠ .done n ()) := by
  have hstart : (start kernel).kernel.Acyclic := Kernel.acyclic_of_none fun a b ⟨p, hp, _⟩ => by
    have hnone := (Kernel.fresh_of_build hk).get? a
    rw [show kernel.processes.get? a = some p from hp] at hnone
    cases hnone
  refine ⟨acyclic_run hrun (.start hk) hstart, fun s hs caller target hw => ?_⟩
  have hm : Reachable s.2 := hrun.reachable (.start hk) s hs
  refine ⟨fun hacyclic hopen => ?_, fun hall idle => ?_⟩
  · have hnot := not_allWait_blocked hm hacyclic hw hopen
    refine ⟨hnot, fun hawake idle => ?_⟩
    have hready := ready_blocked (bound_of_reachable hm) hw.1 hawake hnot
    exact returns_of_ready (reachable_idle hm idle) hw hready
  · exact never_of_allWait (reachable_idle hm idle) hw hall

/-- Some run goes by all machines to which the first ones of the actions lead. -/
theorem exists_run {as : List Action} : ∀ {m n : Machine}, m.acts as = .done n () →
    ∃ run, Run m run ∧ ∀ {bs w}, bs <+: as → bs ≠ [] → m.acts bs = .done w () →
      ∃ act, (act, w) ∈ run := by
  induction as with
  | nil => exact fun _ => ⟨[], .nil, fun hbs hne _ => absurd (List.prefix_nil.1 hbs) hne⟩
  | cons act rest ih =>
    intro m n h
    obtain ⟨v, u, hv, hn⟩ := Outcome.andThen_eq_done_iff.1 h
    obtain ⟨run, hrun, hvisits⟩ := ih hn
    refine ⟨(act, v) :: run, .cons hv hrun, fun {bs w} hbs hne hw => ?_⟩
    cases bs with
    | nil => exact absurd rfl hne
    | cons b bs =>
      obtain ⟨rfl, hrest⟩ := List.cons_prefix_cons.1 hbs
      obtain ⟨v', u', hv', hw⟩ := Outcome.andThen_eq_done_iff.1 hw
      cases hv.symm.trans hv'
      by_cases hnil : bs = []
      · subst hnil
        cases hw
        exact ⟨b, List.mem_cons_self⟩
      · obtain ⟨act, hmem⟩ := hvisits hrest hnil hw
        exact ⟨act, List.mem_cons_of_mem _ hmem⟩

/-- A process waits for its child, which is about to wait for it in turn. -/
def crosswise : List Action :=
  .boot trialEntry :: calls 0 .spawn 0x2000 ++ calls 2 .waitProcess 0 ++
    [.compute (asking 1 .waitProcess 0) .zeroed []]

/-- The first request returns, the second one never does. -/
theorem circle_of_waits_crosswise : ∃ kernel run s t,
    Kernel.build .standard trialFrames true = .ok kernel ∧ Run (.start kernel) run ∧
    s ∈ run ∧ s.2.BeginsWait 1 2 ∧ (∃ n, s.2.act .request = .done n ()) ∧
    t ∈ run ∧ t.2.BeginsWait 2 1 ∧
      ∀ idle n, ({ t.2 with idle } : Machine).act .request ≠ .done n () := by
  obtain ⟨kernel, hk⟩ : ∃ kernel, Kernel.build .standard trialFrames true = .ok kernel := ⟨_, rfl⟩
  obtain ⟨v, hv, hfirst⟩ := Outcome.exists_of_endsIn ((start kernel).acts (crosswise.take 4))
    (fun m => m.kernel.current == some 1 &&
      m.asked m.frame.request == some (2, .waitProcess) &&
      m.kernel.processes.toList.all fun p => p.state != .waiting && p.state != .sleeping)
    (by cases hk; decide +kernel)
  obtain ⟨w, hw, hsecond⟩ := Outcome.exists_of_endsIn ((start kernel).acts crosswise)
    (fun m => m.kernel.current == some 2 &&
      m.asked m.frame.request == some (1, .waitProcess) &&
      (m.kernel.blocked 2 1).processes.toList.all fun p => p.state == .waiting)
    (by cases hk; decide +kernel)
  simp only [Bool.and_eq_true, beq_iff_eq] at hfirst hsecond
  obtain ⟨⟨hvc, hvasked⟩, hidle⟩ := hfirst
  obtain ⟨⟨hwc, hwasked⟩, hall⟩ := hsecond
  obtain ⟨run, hrun, hvisits⟩ := exists_run hw
  obtain ⟨a, ha⟩ := hvisits (List.take_prefix 4 crosswise) (by decide) hv
  obtain ⟨b, hb⟩ := hvisits (List.prefix_refl crosswise) (by decide) hw
  have hfrom : v.BeginsWait 1 2 := ⟨hvc, by decide, hvasked⟩
  have hback : w.BeginsWait 2 1 := ⟨hwc, by decide, hwasked⟩
  have hnone : ∀ i j, ¬ v.kernel.WaitsFor i j := fun i j ⟨p, hp, hs, _⟩ => by
    have := Registry.of_all hidle hp
    simp [hs] at this
  have hawake : ∀ i p, v.kernel.processes.get? i = some p → p.state ≠ .sleeping := by
    intro i p hp hs
    have := Registry.of_all hidle hp
    simp [hs] at this
  obtain ⟨_, hwaits⟩ := circle_of_waits hk hrun
  obtain ⟨_, hreturns⟩ := (hwaits (a, v) ha 1 2 hfrom).1 (Kernel.acyclic_of_none hnone)
    fun hpath => by
      obtain ⟨c, hc, _⟩ := Relation.TransGen.head'_iff.1 hpath
      exact hnone _ _ hc
  have hnever := (hwaits (b, w) hb 2 1 hback).2 fun i p hp =>
    beq_iff_eq.1 (Registry.of_all hall hp)
  exact ⟨kernel, run, (a, v), (b, w), hk, hrun, ha, hfrom, hreturns hawake v.idle, hb, hback,
    hnever⟩

/-- Two processes wait for each other while a third one runs. When that one waits as well, the CPU
idles for ever. -/
theorem circle_of_two : ∃ m,
    trial (.boot trialEntry :: calls 0 .spawn 0x2000 ++ calls 0 .spawn 0x3000 ++
      calls 2 .waitProcess 0 ++ calls 1 .waitProcess 0) = .done m () ∧
    Reachable m ∧ m.kernel.WaitsFor 1 2 ∧ m.kernel.WaitsFor 2 1 ∧ ¬ m.kernel.Acyclic ∧
    ∀ idle n, (m.compute (asking 1 .waitProcess 0) .zeroed idle).act .request ≠ .done n () := by
  obtain ⟨m, hm, hcheck⟩ := Outcome.exists_of_endsIn
    (trial (.boot trialEntry :: calls 0 .spawn 0x2000 ++ calls 0 .spawn 0x3000 ++
      calls 2 .waitProcess 0 ++ calls 1 .waitProcess 0))
    (fun m =>
      (m.kernel.processes.get? 1).any (fun p => p.state == .waiting && p.waitTarget == some 2) &&
      (m.kernel.processes.get? 2).any (fun p => p.state == .waiting && p.waitTarget == some 1) &&
      (m.kernel.current == some 3 &&
        (m.compute (asking 1 .waitProcess 0) .zeroed []).asked
          (asking 1 .waitProcess 0).request == some (1, .waitProcess) &&
        (m.kernel.blocked 3 1).processes.toList.all fun p => p.state == .waiting))
    (by decide +kernel)
  simp only [Bool.and_eq_true, Option.any_eq_true, beq_iff_eq] at hcheck
  obtain ⟨⟨⟨p, hp, hps, hpt⟩, q, hq, hqs, hqt⟩, ⟨hc, hasked⟩, hall⟩ := hcheck
  have hreachable : Reachable m := .trial hm
  have hpq : m.kernel.WaitsFor 1 2 := ⟨p, hp, hps, hpt⟩
  have hqp : m.kernel.WaitsFor 2 1 := ⟨q, hq, hqs, hqt⟩
  refine ⟨m, hm, hreachable, hpq, hqp, fun h => h 1 (.tail (.single hpq) hqp), fun idle => ?_⟩
  have hthird := hreachable.act (a := .compute (asking 1 .waitProcess 0) .zeroed idle) rfl
  exact never_of_allWait hthird ⟨hc, by decide, hasked⟩ fun i r hr =>
    beq_iff_eq.1 (Registry.of_all hall hr)

end Machine
end Nucleus
