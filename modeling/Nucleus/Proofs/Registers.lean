import Nucleus.Proofs.Binding

/-!
# Nucleus.Proofs.Registers

There is one frame for all processes, and a copy of the registers of each process that does not
have the CPU. Seen through `Machine.registers` this is as if each process had registers of its own:
a scheduling decision changes none of them (`keeps_decision`), and all that is ever written to them
is the answer to a request, the exit status that ends a wait, and a new stack pointer.

* `Machine.Keeps`: the same processes, with the same registers.
* `Machine.Rewrites`: what is written to the registers of the processes that stay, and what the new
  ones begin with.
* `registers_act`: what each action writes.
-/

namespace Nucleus

/-- What an operation on `target` writes to the registers `r` of a process, besides the answer. -/
def Operation.write (op : Operation) (target : ProcessId) (p : Process) (r : Registers) :
    Registers :=
  match op with
  | kill status => if p.isWaitingFor target then r.withResult status else r
  | setStack stack => if p.id = target then { r with rsp := stack.word } else r
  | _ => r

/-- What the completion of a request writes to the registers of the caller. -/
def Completion.write (c : Completion) (r : Registers) : Registers :=
  match c with
  | ready reply => r.withResult reply.encode
  | deferred => r

/-- The entry point of the process that an operation creates. -/
def Operation.entry? : Operation → Option VirtAddr
  | spawn entry => some entry
  | _ => none

theorem Operation.write_of_writesRegisters {op : Operation} (h : op.writesRegisters = false)
    (target : ProcessId) (p : Process) (r : Registers) : op.write target p r = r := by
  cases op <;> first | rfl | cases h

namespace Machine

/-- The registers of a process: those of the frame, if it has the CPU. -/
def registers (m : Machine) (p : Process) : Registers :=
  if m.kernel.current = some p.id then m.frame else p.context

/-- What a request writes to the registers `r` of a process before it is answered. -/
def written (m : Machine) (q : Request) (p : Process) (r : Registers) : Registers :=
  match m.asked q with
  | some (target, op) => op.write target p r
  | none => r

/-- The entry point of the process that a request creates. -/
def entry? (m : Machine) (q : Request) : Option VirtAddr :=
  match m.asked q with
  | some (_, op) => op.entry?
  | none => none

/-- What the request in the frame makes of the registers of a process: the caller is answered, if
it does not have to wait. -/
def registersAfterRequest (m : Machine) (p : Process) : Registers :=
  let written := m.written m.frame.request p (m.registers p)
  if m.kernel.current = some p.id then
    match m.completion? with
    | some c => c.write written
    | none => written
  else
    written

/-- What an action makes of the registers of a process that is there before and after it. -/
def registersAfter (m : Machine) (a : Action) (p : Process) : Registers :=
  match a with
  | .compute frame _ _ => if m.kernel.current = some p.id then frame else m.registers p
  | .request => m.registersAfterRequest p
  | _ => m.registers p

/-- The entry point and the privilege of the process that an action creates, if it creates one. -/
def born? (m : Machine) : Action → Option (VirtAddr × Bool)
  | .boot entry => some (entry, true)
  | .request => (m.entry? m.frame.request).map fun entry => (entry, false)
  | _ => none

variable {m n o : Machine} {id caller target : ProcessId} {op : Operation} {c : Completion}
  {f g : Process → Registers → Registers} {born : Option (VirtAddr × Bool)}

/-! ### Nothing is written -/

/-- The same processes, each with the same registers and the same address space. -/
def Keeps (m n : Machine) : Prop :=
  Registry.Rel (fun p q => n.registers q = m.registers p ∧ q.space = p.space)
    m.kernel.processes n.kernel.processes

theorem Keeps.trans (h : m.Keeps n) (h' : n.Keeps o) : m.Keeps o :=
  h.comp h' fun hpq hqu => ⟨hqu.1.trans hpq.1, hqu.2.trans hpq.2⟩

theorem keeps_quiet (h : m.Quiet n) : m.Keeps n := by
  refine h.processes.imp fun {p q} hpq => ⟨?_, hpq.space⟩
  unfold registers
  rw [h.current, h.frame, hpq.id, hpq.context]

theorem keeps_of_eq (hk : n.kernel = m.kernel) (hf : n.frame = m.frame) : m.Keeps n := by
  unfold Keeps registers
  rw [hk, hf]
  exact .refl (fun _ => ⟨rfl, rfl⟩) _

theorem keeps_tickSlice (m : Machine) : m.Keeps m.tickSlice :=
  Registry.Rel.refl (fun _ => ⟨rfl, rfl⟩) _

theorem keeps_modify {f : Process → Process} {hf : ∀ p, (f p).id = p.id}
    (h : ∀ p, m.kernel.processes.get? id = some p →
      (f p).context = p.context ∧ (f p).space = p.space) : m.Keeps (m.modifyProcess id f hf) := by
  refine Registry.rel_modify (fun p => ⟨rfl, rfl⟩) hf fun p hp => ⟨?_, (h p hp).2⟩
  show m.registers (f p) = m.registers p
  unfold registers
  rw [hf, (h p hp).1]

theorem context_suspended (m : Machine) (p : Process) :
    (m.suspended p).context = m.registers p := by
  unfold suspended registers
  split <;> rfl

theorem space_suspended (m : Machine) (p : Process) : (m.suspended p).space = p.space := by
  unfold suspended
  split <;> rfl

/-- Where the CPU goes, the registers of the process go along. -/
theorem registers_of_decision (h : m.Decision n id) {j : ProcessId} {q : Process}
    (hq : n.kernel.processes.get? j = some q) : n.registers q = q.context := by
  obtain ⟨p, hp, _, hframe⟩ := h.selected
  unfold registers
  rw [h.current]
  split
  · -- The frame was loaded from the saved registers of the process selected.
    rename_i hid
    rw [← Registry.id_of_get? hq, ← Option.some.inj hid, hp] at hq
    cases hq
    exact hframe.symm
  · rfl

theorem keeps_decision (h : m.Decision n id) : m.Keeps n := by
  refine .of_get? (fun {j p} hp => ?_) h.table.eq_none_iff.2
  obtain ⟨q, hq, u, hu, _, rfl⟩ := h.table.forth hp
  refine ⟨_, hq, ?_, ?_⟩
  · rw [registers_of_decision h hq, ← context_suspended, ← hu.context]
    split <;> rfl
  · rw [← m.space_suspended p, ← hu.space]
    split <;> rfl

theorem keeps_schedule (h : m.schedule = .done n id) : m.Keeps n :=
  keeps_decision (decision_of_schedule h)

/-! ### What is written -/

/-- The registers of the processes that stay go through `f`, and those of a new process are what
its entry point, its stack and its privilege make them. -/
structure Rewrites (f : Process → Registers → Registers) (born : Option (VirtAddr × Bool))
    (m n : Machine) : Prop where
  stays : ∀ {id p q}, m.kernel.processes.get? id = some p →
    n.kernel.processes.get? id = some q → n.registers q = f p (m.registers p)
  starts : ∀ {id q}, m.kernel.processes.get? id = none →
    n.kernel.processes.get? id = some q → ∃ entry privileged, born = some (entry, privileged) ∧
      n.registers q = .initial entry q.space.userStack privileged

theorem Keeps.rewrites (h : m.Keeps n) (hf : ∀ p, f p (m.registers p) = m.registers p) :
    Rewrites f born m n := by
  constructor
  · intro id p q hp hq
    obtain ⟨q', hq', hpq⟩ := h.forth hp
    rw [hq] at hq'
    cases hq'
    rw [hf]
    exact hpq.1
  · intro id q hp hq
    rw [h.eq_none_iff.2 hp] at hq
    cases hq

theorem Rewrites.congr (h : Rewrites f born m n)
    (hfg : ∀ p, f p (m.registers p) = g p (m.registers p)) : Rewrites g born m n :=
  ⟨fun hp hq => (h.stays hp hq).trans (hfg _), h.starts⟩

theorem Rewrites.keeps (h : Rewrites f born m n) (hn : n.Keeps o) : Rewrites f born m o := by
  constructor
  · intro id p u hp hu
    obtain ⟨q, hq, hqu⟩ := hn.back hu
    exact hqu.1.trans (h.stays hp hq)
  · intro id u hp hu
    obtain ⟨q, hq, hqu⟩ := hn.back hu
    obtain ⟨entry, privileged, hborn, hstart⟩ := h.starts hp hq
    refine ⟨entry, privileged, hborn, ?_⟩
    rw [hqu.1, hqu.2]
    exact hstart

/-- A new process starts at its entry point; the others go on. -/
theorem rewrites_create {k : Kernel} {p : Process} {entry : VirtAddr} {privileged : Bool}
    (hm : m.kernel.Bound) (hk : m.kernel.Creates entry privileged p k) :
    Rewrites (fun _ r => r) (some (entry, privileged)) m (m.setKernel k) := by
  have hcurrent : k.current = m.kernel.current := by rw [hk.kernel]
  constructor
  · intro id q u hq hu
    rw [show (m.setKernel k).kernel.processes.get? id = _ from hk.get? id, if_neg (hk.ne hq),
      hq] at hu
    cases hu
    show (if k.current = some q.id then m.frame else q.context) = _
    rw [hcurrent]
    rfl
  · intro id u hq hu
    rw [show (m.setKernel k).kernel.processes.get? id = _ from hk.get? id] at hu
    split at hu
    · cases hu
      refine ⟨entry, privileged, rfl, ?_⟩
      show (if k.current = some p.id then m.frame else p.context) = _
      rw [hcurrent, if_neg, hk.process]
      · rfl
      · intro hc
        obtain ⟨q, hq⟩ := hm.current hc
        rw [hk.fresh] at hq
        cases hq
    · rw [hq] at hu
      cases hu

/-- A process that ends answers those that wait for it; none of them has the CPU. -/
theorem rewrites_remove {k : Kernel} {status : Word} (hm : m.kernel.Bound)
    (hk : m.kernel.remove target status = .ok k) :
    Rewrites ((Operation.kill status).write target) none m (m.setKernel k) := by
  constructor
  · intro id p q hp hq
    rw [show (m.setKernel k).kernel.processes.get? id = _ from Kernel.get?_removed hk id, hp] at hq
    split at hq
    · cases hq
    · rename_i hne
      cases hq
      have hid := Registry.id_of_get? hp
      show (if k.current = some (Kernel.afterExit target status p).id then m.frame
        else (Kernel.afterExit target status p).context) = _
      rw [Kernel.id_afterExit]
      unfold registers Operation.write
      -- With the CPU it does not wait, so nothing is written; without it the copy is written.
      by_cases hc : m.kernel.current = some p.id
      · have hrun : p.state ≠ .waiting := by
          rw [(hm.running_iff hp).2 (hid ▸ hc)]
          intro e
          cases e
        have hw : p.isWaitingFor target = false :=
          eq_false_of_ne_true fun hw => hrun (Kernel.isWaitingFor_iff.1 hw).1
        rw [if_pos ((Kernel.current_removed hk _).2 ⟨hc, hid ▸ hne⟩), if_pos hc, hw]
        rfl
      · rw [if_neg fun e => hc ((Kernel.current_removed hk _).1 e).1, if_neg hc]
        unfold Kernel.afterExit
        simp only
        split <;> rfl
  · intro id q hp hq
    rw [show (m.setKernel k).kernel.processes.get? id = _ from Kernel.get?_removed hk id, hp] at hq
    split at hq <;> cases hq

theorem rewrites_setStack {stack : VirtAddr} (hc : m.kernel.current = some caller)
    (hn : n = { m.modifyProcess target (Process.setUserStack stack) with
      frame := if target = caller then { m.frame with rsp := stack.word } else m.frame }) :
    Rewrites ((Operation.setStack stack).write target) none m n := by
  subst hn
  constructor
  · intro id p q hp hq
    rw [show _ = _ from get?_modifyProcess id, hp] at hq
    have hid := Registry.id_of_get? hp
    have hrsp : q = if p.id = target then p.setUserStack stack else p := by
      rw [hid]
      split at hq <;> rename_i h
      · rw [if_pos h]
        exact (Option.some.inj hq).symm
      · rw [if_neg h]
        exact (Option.some.inj hq).symm
    have hqid : q.id = p.id := by
      rw [hrsp]
      split <;> rfl
    show (if m.kernel.current = some q.id then
      (if target = caller then { m.frame with rsp := stack.word } else m.frame) else q.context) = _
    unfold registers Operation.write
    rw [hqid, hc]
    by_cases he : caller = p.id
    · subst he
      rw [if_pos rfl, if_pos rfl]
      simp only [eq_comm]
    · have hne : ¬ some caller = some p.id := fun e => he (Option.some.inj e)
      rw [if_neg hne, if_neg hne, hrsp]
      simp only
      split <;> rfl
  · intro id q hp hq
    rw [show _ = _ from get?_modifyProcess id, hp] at hq
    split at hq <;> cases hq

theorem rewrites_spawned {entry : VirtAddr} {p : Process} {k : Kernel} (hm : m.kernel.Bound)
    (hk : m.kernel.Creates entry false p k)
    (hn : n.kernel = { k with processes := k.processes.modify p.id (Process.setParent caller) })
    (hframe : n.frame = m.frame) :
    Rewrites (fun _ r => r) (some (entry, false)) m n := by
  have hparent : (m.setKernel k).Keeps
      ((m.setKernel k).modifyProcess p.id (Process.setParent caller)) :=
    keeps_modify fun _ _ => ⟨rfl, rfl⟩
  exact (rewrites_create hm hk).keeps (hparent.trans (keeps_of_eq hn hframe))

/-- What an operation writes before it is answered. -/
theorem rewrites_performed (hm : m.kernel.Bound) (hc : m.kernel.current = some caller)
    (h : m.Performed caller target op n c) :
    Rewrites (op.write target) (op.entry?.map fun entry => (entry, false)) m n := by
  cases h with
  | quietly hop hq =>
    exact (keeps_quiet hq).rewrites fun p => op.write_of_writesRegisters hop target p _
  | spawned hk hn hframe =>
    exact rewrites_spawned hm (Kernel.creates_of_create hk) hn hframe
  | killed hk hq hs =>
    exact (rewrites_remove hm hk).keeps ((keeps_quiet hq).trans (keeps_schedule hs))
  | waited _ hs =>
    have hwait : m.Keeps (m.modifyProcess caller (Process.waitFor target)) :=
      keeps_modify fun _ _ => ⟨rfl, rfl⟩
    exact (hwait.trans (keeps_schedule hs)).rewrites fun _ => rfl
  | slept hop hf hs =>
    refine (Keeps.trans (keeps_modify fun p hp => ?_) (keeps_schedule hs)).rewrites 
      fun p => op.write_of_writesRegisters hop target p _
    rw [hf p hp]
    exact ⟨rfl, rfl⟩
  | yielded hs => exact (keeps_schedule hs).rewrites fun _ => rfl
  | stackSet hn => exact rewrites_setStack hc hn

theorem rewrites_served {q : Request} (hm : m.kernel.Bound) (h : m.serve q = .done n c) :
    Rewrites (m.written q) ((m.entry? q).map fun entry => (entry, false)) m n := by
  obtain ⟨p, hp, ⟨hasked, hq, _⟩ | ⟨target, op, note, v, hasked, _, hv, hq⟩⟩ := serve_done h
  · refine (keeps_quiet hq).rewrites fun p => ?_
    unfold written
    rw [hasked]
  · have hwrite : m.written q = op.write target := by
      unfold written
      rw [hasked]
    have hentry : m.entry? q = op.entry? := by
      unfold entry?
      rw [hasked]
    rw [hwrite, hentry]
    have hnote := rewrites_performed (m := m.note note) hm (currentProcess?_eq_some hp).1 hv
    exact .keeps ⟨hnote.stays, hnote.starts⟩ (keeps_quiet hq)

/-- The caller is answered where its registers are. -/
theorem registers_completed (m : Machine) (caller : ProcessId) (c : Completion) :
    Registry.Rel
      (fun p q => (m.completed caller c).registers q =
        (if p.id = caller then c.write (m.registers p) else m.registers p) ∧ q.space = p.space)
      m.kernel.processes (m.completed caller c).kernel.processes := by
  cases c with
  | deferred => exact .refl (fun p => ⟨by split <;> rfl, rfl⟩) _
  | ready r =>
    show Registry.Rel (fun p q => (m.answer caller r.encode).registers q = _ ∧ _) _
      (m.answer caller r.encode).kernel.processes
    unfold answer registers
    split
    · rename_i hc
      refine .refl (fun p => ⟨?_, rfl⟩) _
      rw [hc]
      by_cases hp : p.id = caller
      · rw [hp, if_pos rfl, if_pos rfl, if_pos rfl]
        rfl
      · have hne : ¬ some caller = some p.id := fun e => hp (Option.some.inj e).symm
        rw [if_neg hne, if_neg hp, if_neg hne]
    · rename_i hc
      refine .of_get? (fun {j p} hp => ?_) fun {j} hp => ?_
      · have hid := Registry.id_of_get? hp
        rw [get?_modifyProcess, hp]
        by_cases hj : j = caller
        · refine ⟨p.answer r.encode, by rw [if_pos hj]; rfl, ?_, rfl⟩
          show (if m.kernel.current = some p.id then m.frame else p.context.withResult r.encode) = _
          rw [hid, hj, if_neg hc, if_pos rfl, if_neg hc]
          rfl
        · refine ⟨p, by rw [if_neg hj], ?_, rfl⟩
          rw [hid, if_neg hj]
          rfl
      · rw [get?_modifyProcess, hp]
        split <;> rfl

/-! ### Every action -/

theorem rewrites_requested {locks : Locks} {p : Process} {v : Machine} (hm : m.kernel.Bound)
    (hp : m.kernel.currentProcess? = some p) (hc : m.completion? = some c)
    (hv : ({ m with locks } : Machine).serve m.frame.request = .done v c)
    (hn : (v.completed p.id c).Quiet n) :
    Rewrites (fun p _ => m.registersAfterRequest p) (m.born? .request) m n := by
  obtain ⟨hcurrent, hcaller⟩ := currentProcess?_eq_some hp
  have hserved := rewrites_served (m := { m with locks }) hm hv
  have hanswered := registers_completed v p.id c
  refine .keeps ⟨fun {id q u} hq hu => ?_, fun {id u} hq hu => ?_⟩ (keeps_quiet hn)
  · obtain ⟨w, hw, hreg, _⟩ := hanswered.back hu
    have hid : w.id = q.id := (Registry.id_of_get? hw).trans (Registry.id_of_get? hq).symm
    rw [hreg, hserved.stays hq hw, hid]
    unfold registersAfterRequest
    rw [hc, hcurrent]
    by_cases he : q.id = p.id
    · rw [if_pos he, he, if_pos rfl]
      rfl
    · rw [if_neg he, if_neg fun e => he (Option.some.inj e).symm]
      rfl
  · obtain ⟨w, hw, hreg, hspace⟩ := hanswered.back hu
    obtain ⟨entry, privileged, hborn, hstart⟩ := hserved.starts hq hw
    refine ⟨entry, privileged, hborn, ?_⟩
    rw [hreg, hspace, if_neg, hstart]
    rw [Registry.id_of_get? hw]
    rintro rfl
    rw [hcaller] at hq
    cases hq

theorem rewrites_compute (frame : Registers) (memory : UserMemory) (idle : List (List Arrival)) :
    Rewrites (fun p _ => m.registersAfter (.compute frame memory idle) p) none m
      (m.compute frame memory idle) := by
  constructor
  · intro id p q hp hq
    rw [show m.kernel.processes.get? id = _ from hq] at hp
    cases hp
    show (if m.kernel.current = some p.id then frame else p.context) =
      if m.kernel.current = some p.id then frame else m.registers p
    unfold registers
    split <;> rfl
  · intro id q hp hq
    rw [show m.kernel.processes.get? id = _ from hq] at hp
    cases hp

theorem registersAfter_of_mayBeQuiet {a : Action} (h : a.mayBeQuiet = true) (p : Process) :
    m.registersAfter a p = m.registers p := by
  cases a <;> first | rfl | cases h

theorem rewrites_acted {a : Action} (hm : m.kernel.Bound) (h : m.Acted a n) :
    Rewrites (fun p _ => m.registersAfter a p) (m.born? a) m n := by
  cases h with
  | computed => exact rewrites_compute _ _ _
  | quietly ha _ hq => exact (keeps_quiet hq).rewrites (registersAfter_of_mayBeQuiet ha)
  | booted hk hw hv hn =>
    have hgoes := ((keeps_quiet hw).trans (keeps_schedule hv)).trans (keeps_quiet hn)
    exact ((rewrites_create hm (Kernel.creates_of_create hk)).keeps hgoes).congr fun _ => rfl
  | requested hp hc hv hn => exact rewrites_requested hm hp hc hv hn
  | @ticked w _ hw _ _ hn =>
    have htick := w.keeps_tickSlice
    exact (((keeps_quiet hw).trans htick).trans (keeps_quiet hn)).rewrites fun _ => rfl
  | @preempted w _ _ _ hw _ _ hv hn =>
    have htick := w.keeps_tickSlice
    have hgoes := (htick.trans (keeps_schedule hv)).trans (keeps_quiet hn)
    exact ((keeps_quiet hw).trans hgoes).rewrites fun _ => rfl
  | shutDown _ hn =>
    have hnone : ∀ id, n.kernel.processes.get? id = none := fun id =>
      hn.processes.eq_none_iff.2 (Registry.get?_empty id)
    constructor
    · intro id p q hp hq
      rw [hnone] at hq
      cases hq
    · intro id q hp hq
      rw [hnone] at hq
      cases hq

/-- Seen process by process, an action writes to registers what `registersAfter` says and nothing
else, wherever the registers are before and after it: a process that stays has all its registers as
they were, but for the answer to its own request, the exit status that ends its wait, and a new
stack pointer; and a new process begins at its entry point, on its stack. -/
theorem registers_act {a : Action} (hm : Reachable m) (h : m.act a = .done n ()) :
    (∀ id p q, m.kernel.processes.get? id = some p → n.kernel.processes.get? id = some q →
      n.registers q = m.registersAfter a p) ∧
    ∀ id q, m.kernel.processes.get? id = none → n.kernel.processes.get? id = some q →
      ∃ entry privileged, m.born? a = some (entry, privileged) ∧
        n.registers q = .initial entry q.space.userStack privileged := by
  have hacted := rewrites_acted (bound_of_reachable hm) (act_done h)
  exact ⟨fun _ _ _ hp hq => hacted.stays hp hq, fun _ _ hp hq => hacted.starts hp hq⟩

/-- A process waits for its child and the child ends itself: the exit status is all that changes in
the registers of the first one. -/
theorem registers_act_kill : ∃ m n p q,
    trial (untilExit 77) = .done m () ∧ m.act .request = .done n () ∧
    m.kernel.processes.get? 1 = some p ∧ n.kernel.processes.get? 1 = some q ∧
    n.registers q = (m.registers p).withResult 77 := by
  obtain ⟨m, hm, hcheck⟩ := Outcome.exists_of_endsIn
    (trial (untilExit 77))
    (fun m => (m.act .request).endsIn fun n =>
      (n.kernel.processes.get? 1).isSome &&
        (m.kernel.processes.get? 1).any fun p =>
          m.registersAfter .request p == (m.registers p).withResult 77)
    (by decide +kernel)
  obtain ⟨n, hn, hcheck⟩ := Outcome.exists_of_endsIn _ _ hcheck
  rw [Bool.and_eq_true, Option.any_eq_true] at hcheck
  obtain ⟨hq, p, hp, hafter⟩ := hcheck
  obtain ⟨q, hq⟩ := Option.isSome_iff_exists.1 hq
  refine ⟨m, n, p, q, hm, hn, hp, hq, ?_⟩
  rw [(registers_act (.trial hm) hn).1 1 p q hp hq]
  exact eq_of_beq hafter

end Machine
end Nucleus
