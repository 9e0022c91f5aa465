import Nucleus.Proofs.Bystander
import Nucleus.Proofs.Registers

/-!
# Nucleus.Proofs.Waits

Waits for the end of another process. A process is waiting exactly if it has a target, which is
another process that exists; so the end of the target is still to come, and nothing else ends the
wait.

* `Kernel.Waits`: the targets exist.
* `waits_of_reachable`: they do all the time.
* `ended?_iff_asksEnd`: what the words of a request are that ends a process.
* `wait_act`: an action ends the waits for one process, with its exit status, or none.
-/

namespace Nucleus

namespace Kernel

/-- The processes that wait have targets, which are other processes that exist. -/
structure Waits (k : Kernel) : Prop where
  waiting_iff : ∀ {id p}, k.processes.get? id = some p →
    (p.state = .waiting ↔ ∃ t, p.waitTarget = some t)
  target : ∀ {id p t}, k.processes.get? id = some p → p.waitTarget = some t →
    t ≠ id ∧ ∃ q, k.processes.get? t = some q

variable {k k' : Kernel} {id target : ProcessId} {p : Process}

/-- They do where the same processes wait. -/
theorem Waits.of_rel (h : k.Waits)
    (ht : Registry.Rel (fun p q => (q.state = .waiting ↔ p.state = .waiting) ∧
      q.waitTarget = p.waitTarget) k.processes k'.processes) : k'.Waits := by
  constructor
  · intro id q hq
    obtain ⟨p, hp, hstate, htarget⟩ := ht.back hq
    rw [hstate, htarget]
    exact h.waiting_iff hp
  · intro id q t hq hqt
    obtain ⟨p, hp, _, htarget⟩ := ht.back hq
    rw [htarget] at hqt
    obtain ⟨hne, o, ho⟩ := h.target hp hqt
    obtain ⟨u, hu, _⟩ := ht.forth ho
    exact ⟨hne, u, hu⟩

theorem Waits.of_none (hp : ∀ id, k.processes.get? id = none) : k.Waits := by
  constructor
  · intro id p hq
    rw [hp] at hq
    cases hq
  · intro id p t hq _
    rw [hp] at hq
    cases hq

theorem Waits.create {entry : VirtAddr} {privileged : Bool} (h : k.Waits)
    (hk : k.Creates entry privileged p k') : k'.Waits := by
  constructor
  · intro id q hq
    rw [hk.get?] at hq
    split at hq
    · cases hq
      rw [hk.process]
      constructor
      · intro e
        cases e
      · rintro ⟨t, e⟩
        cases e
    · exact h.waiting_iff hq
  · intro id q t hq hqt
    rw [hk.get?] at hq
    split at hq
    · cases hq
      rw [hk.process] at hqt
      cases hqt
    · obtain ⟨hne, o, ho⟩ := h.target hq hqt
      exact ⟨hne, o, by rw [hk.get?, if_neg (hk.ne ho)]; exact ho⟩

theorem Waits.isWaitingFor_iff (h : k.Waits) (hp : k.processes.get? id = some p) :
    p.isWaitingFor target = true ↔ p.waitTarget = some target := by
  rw [Kernel.isWaitingFor_iff]
  exact ⟨And.right, fun ht => ⟨(h.waiting_iff hp).2 ⟨target, ht⟩, ht⟩⟩

/-- Who waits for the process that ends does not wait any more. -/
theorem Waits.waitTarget_afterExit (h : k.Waits) (hp : k.processes.get? id = some p)
    (ended : ProcessId) (status : Word) :
    (afterExit ended status p).waitTarget =
      if p.waitTarget = some ended then none else p.waitTarget := by
  unfold afterExit
  by_cases ht : p.waitTarget = some ended
  · rw [if_pos ((h.isWaitingFor_iff hp).2 ht), if_pos ht]
    rfl
  · rw [if_neg fun hw => ht ((h.isWaitingFor_iff hp).1 hw), if_neg ht]

theorem Waits.remove {status : Word} (h : k.Waits) (hk : k.remove target status = .ok k') :
    k'.Waits := by
  constructor
  · intro id q hq
    rw [get?_removed hk] at hq
    split at hq
    · cases hq
    · obtain ⟨p, hp, rfl⟩ := Option.map_eq_some_iff.1 hq
      rw [h.waitTarget_afterExit hp]
      unfold afterExit
      by_cases ht : p.waitTarget = some target
      · rw [if_pos ((h.isWaitingFor_iff hp).2 ht), if_pos ht]
        constructor
        · intro e
          cases e
        · rintro ⟨t, e⟩
          cases e
      · rw [if_neg fun hw => ht ((h.isWaitingFor_iff hp).1 hw), if_neg ht]
        exact h.waiting_iff hp
  · intro id q t hq hqt
    rw [get?_removed hk] at hq
    split at hq
    · cases hq
    · obtain ⟨p, hp, rfl⟩ := Option.map_eq_some_iff.1 hq
      rw [h.waitTarget_afterExit hp] at hqt
      split at hqt
      · cases hqt
      · rename_i hother
        -- Another target than the process that ends is still there, answered perhaps itself.
        obtain ⟨hne, o, ho⟩ := h.target hp hqt
        have ht : ¬ t = target := by
          rintro rfl
          exact hother hqt
        exact ⟨hne, afterExit target status o, by rw [get?_removed hk, if_neg ht, ho]; rfl⟩

/-- A process begins to wait for another one that exists. -/
theorem Waits.waitFor (h : k.Waits) (hne : target ≠ id)
    (ht : ∃ q, k.processes.get? target = some q) :
    ({ k with processes := k.processes.modify id (Process.waitFor target) } : Kernel).Waits := by
  obtain ⟨o, ho⟩ := ht
  have hstays : ∀ {j q}, k.processes.get? j = some q →
      ∃ u, (k.processes.modify id (Process.waitFor target)).get? j = some u := by
    intro j q hq
    rw [Registry.get?_modify, hq]
    split <;> exact ⟨_, rfl⟩
  constructor
  · intro j q hq
    rw [Registry.get?_modify] at hq
    split at hq
    · obtain ⟨p, hp, rfl⟩ := Option.map_eq_some_iff.1 hq
      exact ⟨fun _ => ⟨target, rfl⟩, fun _ => rfl⟩
    · exact h.waiting_iff hq
  · intro j q t hq hqt
    rw [Registry.get?_modify] at hq
    split at hq
    · rename_i hj
      obtain ⟨p, hp, rfl⟩ := Option.map_eq_some_iff.1 hq
      cases hqt
      exact ⟨hj ▸ hne, hstays ho⟩
    · obtain ⟨hne', q', hq'⟩ := h.target hq hqt
      exact ⟨hne', hstays hq'⟩

end Kernel

namespace Machine

variable {m n : Machine} {id caller target : ProcessId} {p : Process} {op : Operation}
  {c : Completion}

theorem waits_goes (hm : m.kernel.Waits) (h : m.Goes n) : n.kernel.Waits :=
  hm.of_rel (h.imp fun hpq => ⟨hpq.waiting_iff, hpq.waitTarget⟩)

theorem waits_performed (hm : m.kernel.Waits) (hb : m.kernel.Bound)
    (hc : m.kernel.current = some caller) (ht : (m.kernel.processes.get? target).isSome)
    (h : m.Performed caller target op n c) : n.kernel.Waits := by
  cases h with
  | quietly _ hq => exact waits_goes hm (goes_quiet hq)
  | @spawned entry p' k n hk hn _ =>
    rw [hn]
    have hcreated := hm.create (Kernel.creates_of_create hk)
    refine hcreated.of_rel ?_
    exact Registry.rel_modify (fun _ => ⟨Iff.rfl, rfl⟩) (Process.id_setParent caller)
      fun _ _ => ⟨Iff.rfl, rfl⟩
  | killed hk hq hs =>
    have hremoved : (m.setKernel _).kernel.Waits := hm.remove hk
    exact waits_goes hremoved ((goes_quiet hq).trans (goes_schedule hs))
  | waited hne hs =>
    have hwait : (m.modifyProcess caller (Process.waitFor target)).kernel.Waits :=
      hm.waitFor hne.symm (Option.isSome_iff_exists.1 ht)
    exact waits_goes hwait (goes_schedule hs)
  | @slept op f hf t n id _ hsleep hs =>
    have hslept : (m.modifyProcess caller f hf).kernel.Waits := by
      refine hm.of_rel (Registry.rel_modify (fun _ => ⟨Iff.rfl, rfl⟩) hf fun p hp => ?_)
      rw [hsleep p hp, (hb.running_iff hp).2 hc]
      refine ⟨?_, rfl⟩
      constructor <;> intro e <;> cases e
    exact waits_goes hslept (goes_schedule hs)
  | yielded hs => exact waits_goes hm (goes_schedule hs)
  | stackSet hn =>
    rw [hn]
    refine waits_goes hm ?_
    exact m.goes_modify target fun _ => Process.alike_of_eq rfl rfl rfl

theorem waits_served {q : Request} (hm : m.kernel.Waits) (hb : m.kernel.Bound)
    (h : m.serve q = .done n c) : n.kernel.Waits := by
  obtain ⟨p, hp, ⟨_, hq, _⟩ | ⟨target, op, note, v, _, ht, hv, hq⟩⟩ := serve_done h
  · exact waits_goes hm (goes_quiet hq)
  · have hperformed := waits_performed (m := m.note note) hm hb (currentProcess?_eq_some hp).1 ht hv
    exact waits_goes hperformed (goes_quiet hq)

theorem waits_acted {a : Action} (hm : m.kernel.Waits) (hb : m.kernel.Bound) (h : m.Acted a n) :
    n.kernel.Waits := by
  cases h with
  | computed => exact hm.of_rel (.refl (fun _ => ⟨Iff.rfl, rfl⟩) _)
  | quietly _ _ hq => exact waits_goes hm (goes_quiet hq)
  | booted hk hw hv hn =>
    have hcreated : (m.setKernel _).kernel.Waits := hm.create (Kernel.creates_of_create hk)
    have hgoes := ((goes_quiet hw).trans (goes_schedule hv)).trans (goes_quiet hn)
    exact waits_goes hcreated hgoes
  | @requested locks p v n c _ _ hv hn =>
    have hserved := waits_served (m := { m with locks }) hm hb hv
    exact waits_goes hserved ((goes_completed v p.id c).trans (goes_quiet hn))
  | @ticked w _ hw _ _ hn =>
    exact waits_goes hm (((goes_quiet hw).trans w.goes_tickSlice).trans (goes_quiet hn))
  | @preempted w _ _ _ hw _ _ hv hn =>
    have hgoes := (w.goes_tickSlice.trans (goes_schedule hv)).trans (goes_quiet hn)
    exact waits_goes hm ((goes_quiet hw).trans hgoes)
  | @shutDown w n _ hn =>
    have hnone : w.releaseAll.1.kernel.Waits := .of_none Registry.get?_empty
    exact waits_goes hnone (goes_quiet hn)

theorem waits_of_reachable (hm : Reachable m) : m.kernel.Waits :=
  hm.invariant (fun hk => .of_none hk.get?) fun hm hw =>
    waits_acted hw (bound_of_reachable hm)

/-! ### The end of a wait -/

/-- The process that an action ends, and its exit status. -/
def ended? (m : Machine) : Action → Option (ProcessId × Word)
  | .request =>
    match m.asked m.frame.request with
    | some (target, .kill status) => some (target, status)
    | _ => none
  | _ => none

theorem ended?_eq_some_iff {a : Action} {status : Word} :
    m.ended? a = some (target, status) ↔
      a = .request ∧ m.asked m.frame.request = some (target, .kill status) := by
  constructor
  · intro h
    unfold ended? at h
    split at h
    · split at h
      · rename_i hasked
        cases h
        exact ⟨rfl, hasked⟩
      · cases h
    · cases h
  · rintro ⟨rfl, hasked⟩
    unfold ended?
    rw [hasked]

/-- The words in the frame ask for the end of a process: the operation in `rsi` is number 1, and
`rdi` names the process, or is zero and the process has the CPU. -/
structure AsksEnd (m : Machine) (target : ProcessId) : Prop where
  operation : m.frame.rsi = 1
  target : if m.frame.rdi = 0 then m.kernel.current = some target else m.frame.rdi = target

/-- A process that exists is ended exactly by a request that asks for it in its own words, and its
exit status is the argument in `rdx`. -/
theorem ended?_iff_asksEnd {a : Action} {status : Word} (hb : m.kernel.Bound)
    (hp : m.kernel.processes.get? target = some p) :
    m.ended? a = some (target, status) ↔
      (a = .request ∧ m.AsksEnd target) ∧ status = m.frame.rdx := by
  rw [ended?_eq_some_iff, asked_eq_some_iff, and_assoc]
  refine and_congr_right fun _ => ?_
  constructor
  · rintro ⟨o, ho, hasks⟩
    refine ⟨⟨hasks.operation, ?_⟩, hasks.argument⟩
    have htarget := hasks.target
    split
    · rename_i hself
      rw [if_neg fun h => h.2 hself] at htarget
      rw [htarget]
      exact (currentProcess?_eq_some ho).1
    · rename_i hnamed
      rw [if_pos ⟨rfl, hnamed⟩] at htarget
      exact htarget.1.symm
  · rintro ⟨⟨hoperation, htarget⟩, hstatus⟩
    have hexists : m.kernel.processes.isEmpty = false := by
      refine eq_false_of_ne_true fun h => ?_
      rw [Registry.isEmpty_iff.1 h] at hp
      cases hp
    obtain ⟨o, ho⟩ := exists_currentProcess? hb hexists
    refine ⟨o, ho, hoperation, ?_, hstatus⟩
    split at htarget
    · rename_i hself
      rw [if_neg fun h => h.2 hself]
      exact Option.some.inj (htarget.symm.trans (currentProcess?_eq_some ho).1)
    · rename_i hnamed
      rw [if_pos ⟨rfl, hnamed⟩]
      exact ⟨htarget.symm, by rw [hp]; rfl⟩

theorem registers_of_ne (h : m.kernel.current ≠ some p.id) : m.registers p = p.context :=
  if_neg h

/-- Nobody is waiting with the CPU. -/
theorem current_ne_of_waiting (hm : m.kernel.Bound) (hp : m.kernel.processes.get? id = some p)
    (hw : p.state = .waiting) : m.kernel.current ≠ some id := by
  intro hc
  rw [(hm.running_iff hp).2 hc] at hw
  cases hw

/-- The end of the target is delivered: its status is the result of the wait and the answer to the
request that began it. -/
theorem delivered_acted {a : Action} {status : Word} (hb : m.kernel.Bound) (hm : m.kernel.Waits)
    (h : m.Acted a n) (hp : m.kernel.processes.get? id = some p) (hw : p.state = .waiting)
    (ht : p.waitTarget = some target) (hend : m.ended? a = some (target, status)) :
    ∃ q, n.kernel.processes.get? id = some q ∧ q.canRun ∧ q.waitTarget = none ∧
      q.waitResult = status ∧ n.registers q = p.context.withResult status := by
  obtain ⟨rfl, hasked⟩ := ended?_eq_some_iff.1 hend
  have hid := Registry.id_of_get? hp
  have hne := current_ne_of_waiting hb hp hw
  have hwaits : p.isWaitingFor target = true := (hm.isWaitingFor_iff hp).2 ht
  have hleft : m.leaves .request p = some (p.deliverExit status) := by
    unfold leaves Operation.leaves Kernel.afterExit
    rw [hasked]
    simp only
    rw [if_neg fun e => (hm.target hp ht).1 (e.symm.trans hid), if_pos hwaits]
  have hfinds := bystander_acted hp hne h
  unfold Finds at hfinds
  rw [hleft] at hfinds
  cases hq : n.kernel.processes.get? id with
  | none =>
    rw [hq] at hfinds
    cases hfinds
  | some q =>
    rw [hq] at hfinds
    cases hfinds with
    | some halike =>
      refine ⟨q, rfl, halike.canRun (.inl rfl), halike.waitTarget, halike.waitResult, ?_⟩
      rw [(rewrites_acted hb h).stays hp hq, ← registers_of_ne (hid.symm ▸ hne)]
      show m.registersAfterRequest p = _
      unfold registersAfterRequest written Operation.write
      rw [if_neg (hid.symm ▸ hne), hasked]
      simp only
      rw [if_pos hwaits]

theorem rax_registersAfter {a : Action} (hne : m.kernel.current ≠ some p.id)
    (ht : p.waitTarget = some target) (hend : ∀ status, m.ended? a ≠ some (target, status)) :
    (m.registersAfter a p).rax = p.context.rax := by
  rw [← registers_of_ne hne]
  cases a with
  | compute frame memory idle =>
    show (if _ then frame else m.registers p).rax = _
    rw [if_neg hne]
  | request =>
    show (m.registersAfterRequest p).rax = _
    unfold registersAfterRequest written
    rw [if_neg hne]
    split
    · rename_i t op hasked
      unfold Operation.write
      split
      · rename_i status
        rw [if_neg]
        intro hw
        have htarget := (Kernel.isWaitingFor_iff.1 hw).2
        rw [ht] at htarget
        cases htarget
        exact hend status (ended?_eq_some_iff.2 ⟨rfl, hasked⟩)
      · split <;> rfl
      · rfl
    · rfl
  | _ => rfl

theorem afterExit_of_waitTarget {status : Word} (ht : p.waitTarget = some target)
    (hne : id ≠ target) : Kernel.afterExit id status p = p := by
  unfold Kernel.afterExit
  rw [if_neg]
  intro hw
  have htarget := (Kernel.isWaitingFor_iff.1 hw).2
  rw [ht] at htarget
  exact hne (Option.some.inj htarget).symm

theorem leaves_of_ended?_ne {a : Action} (ht : p.waitTarget = some target)
    (hend : ∀ status, m.ended? a ≠ some (target, status)) :
    m.leaves a p = none ∨ m.leaves a p = some p := by
  cases a with
  | request =>
    unfold leaves
    simp only
    split
    · rename_i t op hasked
      unfold Operation.leaves
      split
      · rename_i status
        have hne : t ≠ target := by
          rintro rfl
          exact hend status (ended?_eq_some_iff.2 ⟨rfl, hasked⟩)
        rw [afterExit_of_waitTarget ht hne]
        split
        · exact .inl rfl
        · exact .inr rfl
      · exact .inr rfl
    · exact .inr rfl
  | shutdown => exact .inl rfl
  | _ => exact .inr rfl

/-- Any other action that does not remove the process leaves it waiting. -/
theorem waiting_acted {a : Action} {q : Process} (hb : m.kernel.Bound) (h : m.Acted a n)
    (hp : m.kernel.processes.get? id = some p) (hw : p.state = .waiting)
    (ht : p.waitTarget = some target) (hend : ∀ status, m.ended? a ≠ some (target, status))
    (hq : n.kernel.processes.get? id = some q) :
    q.state = .waiting ∧ q.waitTarget = some target ∧ q.context.rax = p.context.rax := by
  have hid := Registry.id_of_get? hp
  have hne := current_ne_of_waiting hb hp hw
  have halike : p.Alike q := by
    have hfinds := bystander_acted hp hne h
    unfold Finds at hfinds
    rw [hq] at hfinds
    rcases leaves_of_ended?_ne ht hend with hleft | hleft
    · rw [hleft] at hfinds
      cases hfinds
    · rw [hleft] at hfinds
      cases hfinds with
      | some halike => exact halike
  have hwaiting : q.state = .waiting := halike.waiting_iff.2 hw
  refine ⟨hwaiting, halike.waitTarget.trans ht, ?_⟩
  -- It has the CPU neither before nor after, so its registers are the saved ones both times.
  have hqne := current_ne_of_waiting (bound_of_acted hb h) hq hwaiting
  rw [← registers_of_ne (m := n) (Registry.id_of_get? hq ▸ hqne), (rewrites_acted hb h).stays hp hq]
  exact rax_registersAfter (hid.symm ▸ hne) ht hend

/-- A process is waiting exactly while it has a target, which is another process that exists. The
wait goes on, with `rax` untouched, until the target is ended by a request: the operation in `rsi`
is number 1, and `rdi` names the target, or is zero and the target has the CPU. Then the process can
run, and the argument in `rdx`, whatever it is, is the result of its wait and what it finds in
`rax`. -/
theorem wait_act (hm : Reachable m) :
    (∀ id p, m.kernel.processes.get? id = some p →
      (p.state = .waiting ↔ ∃ t, p.waitTarget = some t) ∧
      ∀ t, p.waitTarget = some t → t ≠ id ∧ ∃ q, m.kernel.processes.get? t = some q) ∧
    ∀ a n id p t, m.act a = .done n () → m.kernel.processes.get? id = some p →
      p.state = .waiting → p.waitTarget = some t →
      (a = .request ∧ m.AsksEnd t →
        ∃ q, n.kernel.processes.get? id = some q ∧ (q.state = .ready ∨ q.state = .running) ∧
          q.waitTarget = none ∧ q.waitResult = m.frame.rdx ∧
            (n.registers q).rax = m.frame.rdx) ∧
      (¬(a = .request ∧ m.AsksEnd t) →
        ∀ q, n.kernel.processes.get? id = some q →
          q.state = .waiting ∧ q.waitTarget = some t ∧ q.context.rax = p.context.rax) := by
  have hb := bound_of_reachable hm
  have hwaits := waits_of_reachable hm
  refine ⟨fun id p hp => ⟨hwaits.waiting_iff hp, fun t ht => hwaits.target hp ht⟩, ?_⟩
  intro a n id p t ha hp hw ht
  obtain ⟨_, o, ho⟩ := hwaits.target hp ht
  refine ⟨fun hasks => ?_, fun hasks q hq => ?_⟩
  · have hend : m.ended? a = some (t, m.frame.rdx) := (ended?_iff_asksEnd hb ho).2 ⟨hasks, rfl⟩
    obtain ⟨q, hq, hrun, htarget, hresult, hreg⟩ :=
      delivered_acted hb hwaits (act_done ha) hp hw ht hend
    exact ⟨q, hq, hrun, htarget, hresult, by rw [hreg]; rfl⟩
  · have hend : ∀ status, m.ended? a ≠ some (t, status) :=
      fun status h => hasks ((ended?_iff_asksEnd hb ho).1 h).1
    exact waiting_acted hb (act_done ha) hp hw ht hend hq

/-- A status that reads as an error is delivered like any other: process 2 ends itself with it. -/
theorem wait_act_kill : ∃ m n p q,
    trial (untilExit CallError.notFound.code) = .done m () ∧ m.kernel.current = some 2 ∧
    m.frame.rsi = 1 ∧ m.frame.rdi = 0 ∧ m.frame.rdx = CallError.notFound.code ∧
    m.act .request = .done n () ∧
    m.kernel.processes.get? 1 = some p ∧ p.state = .waiting ∧ p.waitTarget = some 2 ∧
    n.kernel.processes.get? 1 = some q ∧ q.waitTarget = none ∧
    q.waitResult = CallError.notFound.code ∧ (n.registers q).rax = CallError.notFound.code := by
  obtain ⟨m, hm, hcheck⟩ := Outcome.exists_of_endsIn
    (trial (untilExit CallError.notFound.code))
    (fun m => ((m.act .request).endsIn fun _ => true) &&
      (decide (m.kernel.current = some 2 ∧ m.frame.rsi = 1 ∧ m.frame.rdi = 0 ∧
          m.frame.rdx = CallError.notFound.code) &&
        (m.kernel.processes.get? 1).any fun p => p.state == .waiting && p.waitTarget == some 2))
    (by decide +kernel)
  simp only [Bool.and_eq_true, Option.any_eq_true, beq_iff_eq, decide_eq_true_eq] at hcheck
  obtain ⟨hends, ⟨hcurrent, hrsi, hrdi, hrdx⟩, p, hp, hw, ht⟩ := hcheck
  obtain ⟨n, hn, _⟩ := Outcome.exists_of_endsIn _ _ hends
  obtain ⟨hdelivered, _⟩ := (wait_act (.trial hm)).2 .request n 1 p 2 hn hp hw ht
  have hasks : m.AsksEnd 2 := ⟨hrsi, by rw [if_pos hrdi]; exact hcurrent⟩
  obtain ⟨q, hq, _, htarget, hresult, hrax⟩ := hdelivered ⟨rfl, hasks⟩
  rw [hrdx] at hresult hrax
  exact ⟨m, n, p, q, hm, hcurrent, hrsi, hrdi, hrdx, hn, hp, hw, ht, hq, htarget, hresult, hrax⟩

end Machine
end Nucleus
