import Nucleus.Proofs.Binding

/-!
# Nucleus.Proofs.Turns

Whose turn it is. The scheduler goes round the identifiers, so with each selection of another
process it comes nearer to one that is ready, whatever happens to the table of processes between
two selections.

* `RoundRobin.distance`: how far the cursor is from an identifier, in the direction it goes.
* `RoundRobin.distance_next?`: each selection comes nearer, or arrives.
* `Machine.Holds`, `Machine.Chooses`: what is done without a selection, and with one.
* `turned_acted`: every action selects one process, or none, or is a tick of the time slice.
-/

namespace Nucleus

namespace RoundRobin

/-- How far the cursor has to go to an identifier. It goes round when it is there already. -/
def distance (cursor : Option ProcessId) (id : ProcessId) : Nat :=
  match cursor with
  | none => 0x10000000000000000
  | some c => if c < id then id.toNat - c.toNat else id.toNat + 0x10000000000000000 - c.toNat

theorem le_of_find? {l : List Process} {f : Process → Bool} {p q : Process}
    (hl : l.Pairwise fun p q => p.id < q.id) (h : l.find? f = some p) (hq : q ∈ l)
    (hf : f q = true) : p.id.toNat ≤ q.id.toNat := by
  induction l with
  | nil => cases hq
  | cons a rest ih =>
    have ha := List.pairwise_cons.1 hl
    rw [List.find?_cons] at h
    split at h
    · cases h
      rcases List.mem_cons.1 hq with rfl | hq
      · exact Nat.le_refl _
      · exact Nat.le_of_lt (UInt64.lt_iff_toNat_lt.1 (ha.1 q hq))
    · rename_i hne
      rcases List.mem_cons.1 hq with rfl | hq
      · rw [hf] at hne
        cases hne
      · exact ih ha.2 h hq

theorem le_of_head? {l : List Process} {p q : Process}
    (hl : l.Pairwise fun p q => p.id < q.id) (h : l.head? = some p) (hq : q ∈ l) :
    p.id.toNat ≤ q.id.toNat := by
  refine le_of_find? (f := fun _ => true) hl ?_ hq rfl
  cases l <;> exact h

theorem sorted_readyIn (r : Registry) : (readyIn r).Pairwise fun p q => p.id < q.id :=
  r.sorted.filter _

theorem lt_of_find? {l : List Process} {c : ProcessId} {p : Process}
    (h : (l.find? fun p => c < p.id) = some p) : c.toNat < p.id.toNat := by
  have hp := List.find?_some h
  exact UInt64.lt_iff_toNat_lt.1 (of_decide_eq_true hp)

theorem next?_of_none {s : RoundRobin} {r : Registry} (hc : s.cursor = none) :
    s.next? r = (readyIn r).head? := by
  unfold next?
  rw [hc]

theorem next?_of_some {s : RoundRobin} {r : Registry} {c : ProcessId} (hc : s.cursor = some c) :
    s.next? r = ((readyIn r).find? fun p => c < p.id).or (readyIn r).head? := by
  unfold next?
  rw [hc]
  cases hf : (readyIn r).find? fun p => c < p.id with
  | none => simp only [hf, Option.none_or]
  | some p => simp only [hf, Option.some_or]

/-- Something is selected where a process is ready. -/
theorem isSome_next? {s : RoundRobin} {r : Registry} {p : Process} (hp : p ∈ readyIn r) :
    (s.next? r).isSome := by
  have hhead : (readyIn r).head?.isSome := by
    rw [List.isSome_head?]
    exact List.ne_nil_of_mem hp
  cases hc : s.cursor with
  | none => rwa [next?_of_none hc]
  | some c =>
    rw [next?_of_some hc]
    simp [hhead]

theorem distance_of_lt {c id : ProcessId} (h : c.toNat < id.toNat) :
    distance (some c) id = id.toNat - c.toNat :=
  if_pos (UInt64.lt_iff_toNat_lt.2 h)

theorem distance_of_le {c id : ProcessId} (h : id.toNat ≤ c.toNat) :
    distance (some c) id = id.toNat + 0x10000000000000000 - c.toNat :=
  if_neg fun hlt => Nat.not_lt.2 h (UInt64.lt_iff_toNat_lt.1 hlt)

/-- The selection of another process than a ready one comes nearer to that one. -/
theorem distance_next? {s : RoundRobin} {r : Registry} {p q : Process} (hq : q ∈ readyIn r)
    (h : s.next? r = some p) :
    p.id = q.id ∨ distance (some p.id) q.id < distance s.cursor q.id := by
  have hqlt := Word.toNat_lt q.id
  have hplt := Word.toNat_lt p.id
  rcases Nat.lt_trichotomy p.id.toNat q.id.toNat with hpq | hpq | hpq
  · -- The ready process lies ahead of `p`, and `p` ahead of the cursor if that does too.
    right
    rw [distance_of_lt hpq]
    cases hc : s.cursor with
    | none =>
      show _ < 0x10000000000000000
      omega
    | some c =>
      have hclt := Word.toNat_lt c
      rw [next?_of_some hc] at h
      by_cases hcq : c.toNat < q.id.toNat
      · rw [distance_of_lt hcq]
        cases hf : (readyIn r).find? fun p => c < p.id with
        | none =>
          have hno := List.find?_eq_none.1 hf q hq
          exact absurd (decide_eq_true (UInt64.lt_iff_toNat_lt.2 hcq)) hno
        | some p' =>
          rw [hf] at h
          cases h
          have hcp := lt_of_find? hf
          omega
      · rw [distance_of_le (Nat.not_lt.1 hcq)]
        omega
  · exact .inl (UInt64.toNat_inj.1 hpq)
  · -- The scheduler goes round past the ready process only from behind it.
    right
    rw [distance_of_le (Nat.le_of_lt hpq)]
    cases hc : s.cursor with
    | none =>
      rw [next?_of_none hc] at h
      have hle := le_of_head? (sorted_readyIn r) h hq
      omega
    | some c =>
      rw [next?_of_some hc] at h
      cases hf : (readyIn r).find? fun p => c < p.id with
      | none =>
        rw [hf] at h
        have hle := le_of_head? (sorted_readyIn r) h hq
        omega
      | some p' =>
        rw [hf] at h
        cases h
        have hcp := lt_of_find? hf
        have hqc : q.id.toNat ≤ c.toNat := Nat.not_lt.1 fun hcq => by
          have hle := le_of_find? (sorted_readyIn r) hf hq
            (decide_eq_true (UInt64.lt_iff_toNat_lt.2 hcq))
          omega
        rw [distance_of_le hqc]
        omega

end RoundRobin

namespace Machine

variable {m n o : Machine} {id caller target c : ProcessId} {p q : Process} {op : Operation}

/-! ### Without a selection -/

/-- The scheduler has not been at work, and processes that were ready are still ready. -/
structure Holds (m n : Machine) : Prop where
  config : n.kernel.config = m.kernel.config
  cursor : n.kernel.scheduler.cursor = m.kernel.scheduler.cursor
  timeSlice : n.kernel.scheduler.timeSlice = m.kernel.scheduler.timeSlice
  remaining : n.kernel.scheduler.remaining = m.kernel.scheduler.remaining
  switches : n.kernel.scheduler.switches = m.kernel.scheduler.switches
  ids : ∀ {id q}, n.kernel.processes.get? id = some q →
    (∃ p, m.kernel.processes.get? id = some p) ∨
      1 ≤ id.toNat ∧ id.toNat ≤ m.kernel.config.maxProcesses.toNat
  ready : ∀ {id p q}, m.kernel.processes.get? id = some p → p.state = .ready →
    n.kernel.processes.get? id = some q → q.state = .ready

/-- Nothing is created or removed besides. -/
structure Still (m n : Machine) : Prop where
  config : n.kernel.config = m.kernel.config
  current : n.kernel.current = m.kernel.current
  cursor : n.kernel.scheduler.cursor = m.kernel.scheduler.cursor
  timeSlice : n.kernel.scheduler.timeSlice = m.kernel.scheduler.timeSlice
  remaining : n.kernel.scheduler.remaining = m.kernel.scheduler.remaining
  switches : n.kernel.scheduler.switches = m.kernel.scheduler.switches
  table : Registry.Rel (fun p q => p.state = .ready → q.state = .ready)
    m.kernel.processes n.kernel.processes

theorem Still.trans (h : m.Still n) (h' : n.Still o) : m.Still o :=
  ⟨h'.config.trans h.config, h'.current.trans h.current, h'.cursor.trans h.cursor,
    h'.timeSlice.trans h.timeSlice, h'.remaining.trans h.remaining,
    h'.switches.trans h.switches, h.table.comp h'.table fun hpq hqu hp => hqu (hpq hp)⟩

theorem Still.holds (h : m.Still n) : m.Holds n := by
  refine ⟨h.config, h.cursor, h.timeSlice, h.remaining, h.switches, fun hq => ?_, ?_⟩
  · obtain ⟨p, hp, _⟩ := h.table.back hq
    exact .inl ⟨p, hp⟩
  · intro id p q hp hready hq
    obtain ⟨q', hq', hpq⟩ := h.table.forth hp
    rw [hq] at hq'
    cases hq'
    exact hpq hready

theorem still_of_kernel (h : n.kernel = m.kernel) : m.Still n := by
  refine ⟨by rw [h], by rw [h], by rw [h], by rw [h], by rw [h], by rw [h], ?_⟩
  rw [h]
  exact .refl (fun _ hp => hp) _

theorem still_quiet (h : m.Quiet n) : m.Still n := by
  refine ⟨h.config, h.current, h.cursor, h.timeSlice, h.remaining, h.switches, ?_⟩
  refine h.processes.imp fun hpq hp => ?_
  rw [hpq.state_eq (by rw [hp]; intro e; cases e), hp]

theorem still_modify {f : Process → Process} {hf : ∀ p, (f p).id = p.id}
    (h : ∀ p, m.kernel.processes.get? id = some p → p.state = .ready → (f p).state = .ready) :
    m.Still (m.modifyProcess id f hf) :=
  ⟨rfl, rfl, rfl, rfl, rfl, rfl, Registry.rel_modify (fun _ hp => hp) hf h⟩

theorem still_completed (m : Machine) (caller : ProcessId) (c : Completion) :
    m.Still (m.completed caller c) := by
  cases c with
  | deferred => exact ⟨rfl, rfl, rfl, rfl, rfl, rfl, .refl (fun _ hp => hp) _⟩
  | ready r =>
    show m.Still (m.answer caller r.encode)
    unfold answer
    split
    · exact ⟨rfl, rfl, rfl, rfl, rfl, rfl, Registry.Rel.refl (fun _ hp => hp) _⟩
    · exact still_modify fun _ _ hp => hp

theorem Holds.still (h : m.Holds n) (h' : n.Still o) : m.Holds o := by
  refine ⟨h'.config.trans h.config, h'.cursor.trans h.cursor, h'.timeSlice.trans h.timeSlice,
    h'.remaining.trans h.remaining, h'.switches.trans h.switches, fun hu => ?_, ?_⟩
  · obtain ⟨q, hq, _⟩ := h'.table.back hu
    exact h.ids hq
  · intro id p u hp hready hu
    obtain ⟨q, hq, hqu⟩ := h'.table.back hu
    exact hqu (h.ready hp hready hq)

theorem holds_create {k : Kernel} {entry : VirtAddr} {privileged : Bool}
    (hk : m.kernel.Creates entry privileged p k) : m.Holds (m.setKernel k) := by
  have hkernel := hk.kernel
  refine ⟨?_, ?_, ?_, ?_, ?_, fun {id q} hq => ?_, ?_⟩
  · show k.config = _
    rw [hkernel]
  · show k.scheduler.cursor = _
    rw [hkernel]
  · show k.scheduler.timeSlice = _
    rw [hkernel]
  · show k.scheduler.remaining = _
    rw [hkernel]
  · show k.scheduler.switches = _
    rw [hkernel]
  · rw [show (m.setKernel k).kernel.processes.get? id = _ from hk.get? id] at hq
    split at hq
    · rename_i hid
      exact .inr (hid ▸ ⟨hk.positive, hk.bounded⟩)
    · exact .inl ⟨q, hq⟩
  · intro id p' q hp hready hq
    rw [show (m.setKernel k).kernel.processes.get? id = _ from hk.get? id, if_neg (hk.ne hp),
      hp] at hq
    cases hq
    exact hready

theorem holds_remove {k : Kernel} {status : Word} (hk : m.kernel.remove target status = .ok k) :
    m.Holds (m.setKernel k) := by
  have hget : ∀ j, (m.setKernel k).kernel.processes.get? j = _ := Kernel.get?_removed hk
  obtain ⟨_, _, rfl⟩ := Kernel.remove_eq_ok hk
  refine ⟨rfl, rfl, rfl, rfl, rfl, fun {id q} hq => ?_, ?_⟩
  · rw [hget] at hq
    split at hq
    · cases hq
    · obtain ⟨p, hp, _⟩ := Option.map_eq_some_iff.1 hq
      exact .inl ⟨p, hp⟩
  · intro id p q hp hready hq
    rw [hget, hp] at hq
    split at hq
    · cases hq
    · cases hq
      rw [Kernel.afterExit_of_ne, hready]
      rw [hready]
      intro e
      cases e

theorem Still.holds_trans (h : m.Still n) (h' : n.Holds o) : m.Holds o := by
  refine ⟨h'.config.trans h.config, h'.cursor.trans h.cursor, h'.timeSlice.trans h.timeSlice,
    h'.remaining.trans h.remaining, h'.switches.trans h.switches, fun hu => ?_, ?_⟩
  · rw [← h.config]
    exact (h'.ids hu).imp_left fun ⟨q, hq⟩ => (h.table.back hq).imp fun _ hp => hp.1
  · intro id p u hp hready hu
    obtain ⟨q, hq, hpq⟩ := h.table.forth hp
    exact h'.ready hq (hpq hready) hu

/-! ### With a selection -/

/-- The scheduler selects `c` once, which has the CPU then. It comes nearer to all other processes
that were ready, and they are still. -/
structure Chooses (m n : Machine) (c : ProcessId) : Prop where
  config : n.kernel.config = m.kernel.config
  current : n.kernel.current = some c
  cursor : n.kernel.scheduler.cursor = some c
  timeSlice : n.kernel.scheduler.timeSlice = m.kernel.scheduler.timeSlice
  remaining : n.kernel.scheduler.remaining = m.kernel.scheduler.timeSlice
  switches : n.kernel.scheduler.switches = m.kernel.scheduler.switches + 1
  ids : ∀ {id q}, n.kernel.processes.get? id = some q →
    (∃ p, m.kernel.processes.get? id = some p) ∨
      1 ≤ id.toNat ∧ id.toNat ≤ m.kernel.config.maxProcesses.toNat
  others : ∀ {id p q}, m.kernel.processes.get? id = some p → p.state = .ready →
    n.kernel.processes.get? id = some q → c = id ∨ q.state = .ready ∧
      RoundRobin.distance (some c) id < RoundRobin.distance m.kernel.scheduler.cursor id

theorem state_suspended_of_ready (hp : p.state = .ready) : (m.suspended p).state = .ready := by
  unfold suspended Process.suspend
  rw [hp]
  split <;> first | rfl | exact hp

/-- What was ready before a decision is so when the scheduler looks. -/
theorem ready_of_suspendCurrent (h : m.suspendCurrent.Quiet n)
    (hp : m.kernel.processes.get? id = some p) (hready : p.state = .ready) :
    ∃ q, n.kernel.processes.get? id = some q ∧ q.state = .ready := by
  have hsuspended : m.suspendCurrent.kernel.processes.get? id = some (m.suspended p) := by
    rw [get?_suspendCurrent, hp]
    rfl
  obtain ⟨q, hq, hroused⟩ := h.processes.forth hsuspended
  have hstate : (m.suspended p).state = .ready := state_suspended_of_ready hready
  exact ⟨q, hq, by rw [hroused.state_eq (by rw [hstate]; intro e; cases e), hstate]⟩

theorem nearer_of_schedule (h : m.schedule = .done n c) (hp : m.kernel.processes.get? id = some p)
    (hready : p.state = .ready) : c = id ∨ RoundRobin.distance (some c) id <
      RoundRobin.distance m.kernel.scheduler.cursor id := by
  obtain ⟨_, w, s, _, _, _, hq, hs, rfl, _⟩ := schedule_done h
  obtain ⟨hnext, _⟩ := RoundRobin.select_eq_some hs
  obtain ⟨u, hu, huready⟩ := ready_of_suspendCurrent hq hp hready
  have hmem := RoundRobin.mem_readyIn.2 ⟨(Registry.get?_eq_some_iff.1 hu).1, huready⟩
  have := RoundRobin.distance_next? hmem hnext
  rw [Registry.id_of_get? hu, hq.cursor, m.scheduler_suspendCurrent] at this
  exact this

theorem ready_of_passes (h : m.Passes id p q) (hp : p.state = .ready) (hne : p.id ≠ id) :
    q.state = .ready := by
  obtain ⟨u, hu, _, rfl⟩ := h
  have hstate : (m.suspended p).state = .ready := state_suspended_of_ready hp
  rw [if_neg hne, hu.state_eq (by rw [hstate]; intro e; cases e), hstate]

/-- A selection after something else that was done without one. -/
theorem Holds.chooses (h : m.Holds n) (hs : n.schedule = .done o c) : m.Chooses o c := by
  have hd := decision_of_schedule hs
  refine ⟨hd.config.trans h.config, hd.current, hd.cursor, hd.timeSlice.trans h.timeSlice,
    hd.remaining.trans h.timeSlice, by rw [hd.switches, h.switches], fun hu => ?_, ?_⟩
  · obtain ⟨q, hq, _⟩ := hd.table.back hu
    exact h.ids hq
  · intro id p u hp hready hu
    obtain ⟨q, hq, hpasses⟩ := hd.table.back hu
    have hqready := h.ready hp hready hq
    rcases nearer_of_schedule hs hq hqready with hid | hnear
    · exact .inl hid
    · by_cases hid : c = id
      · exact .inl hid
      · refine .inr ⟨ready_of_passes hpasses hqready ?_, h.cursor ▸ hnear⟩
        rw [Registry.id_of_get? hq]
        exact fun e => hid e.symm

theorem Chooses.still (h : m.Chooses n c) (h' : n.Still o) : m.Chooses o c := by
  refine ⟨h'.config.trans h.config, h'.current.trans h.current, h'.cursor.trans h.cursor,
    h'.timeSlice.trans h.timeSlice, h'.remaining.trans h.remaining, h'.switches.trans h.switches,
    fun hu => ?_, ?_⟩
  · obtain ⟨q, hq, _⟩ := h'.table.back hu
    exact h.ids hq
  · intro id p u hp hready hu
    obtain ⟨q, hq, hqu⟩ := h'.table.back hu
    exact (h.others hp hready hq).imp_right fun ⟨hqready, hnear⟩ => ⟨hqu hqready, hnear⟩

theorem Still.chooses (h : m.Still n) (h' : n.Chooses o c) : m.Chooses o c := by
  refine ⟨h'.config.trans h.config, h'.current, h'.cursor, h'.timeSlice.trans h.timeSlice,
    h'.remaining.trans h.timeSlice, by rw [h'.switches, h.switches], fun hu => ?_, ?_⟩
  · rw [← h.config]
    exact (h'.ids hu).imp_left fun ⟨q, hq⟩ => (h.table.back hq).imp fun _ hp => hp.1
  · intro id p u hp hready hu
    obtain ⟨q, hq, hpq⟩ := h.table.forth hp
    rw [← h.cursor]
    exact h'.others hq (hpq hready) hu

/-- A tick of the time slice is lost in the selection that follows. -/
theorem chooses_of_tickSlice (h : m.tickSlice.schedule = .done n c) : m.Chooses n c := by
  have hchosen := (still_of_kernel (m := m.tickSlice) rfl).holds.chooses h
  exact ⟨hchosen.config, hchosen.current, hchosen.cursor, hchosen.timeSlice, hchosen.remaining,
    hchosen.switches, hchosen.ids, hchosen.others⟩

/-! ### Every action -/

theorem turned_performed (hm : m.kernel.Bound) (hc : m.kernel.current = some caller)
    {reply : Completion} (h : m.Performed caller target op n reply) :
    (∃ c, m.Chooses n c) ∨ m.Holds n := by
  -- The caller runs, so it is not a ready process that is blocked.
  have hrunning : ∀ p, m.kernel.processes.get? caller = some p → p.state ≠ .ready := by
    intro p hp hready
    rw [(hm.running_iff hp).2 hc] at hready
    cases hready
  cases h with
  | quietly _ hq => exact .inr (still_quiet hq).holds
  | @spawned entry p' k n hk hn _ =>
    have hparent : (m.setKernel k).Still
        ((m.setKernel k).modifyProcess p'.id (Process.setParent caller)) :=
      still_modify fun _ _ hp => hp
    have hcreated := holds_create (Kernel.creates_of_create hk)
    exact .inr ((hcreated.still hparent).still (still_of_kernel hn))
  | killed hk hq hs => exact .inl ⟨_, ((holds_remove hk).still (still_quiet hq)).chooses hs⟩
  | waited _ hs =>
    have hstill : m.Still (m.modifyProcess caller (Process.waitFor target)) :=
      still_modify fun p hp hready => absurd hready (hrunning p hp)
    exact .inl ⟨_, hstill.holds.chooses hs⟩
  | @slept op f hf t n id _ _ hs =>
    have hstill : m.Still (m.modifyProcess caller f hf) :=
      still_modify fun p hp hready => absurd hready (hrunning p hp)
    exact .inl ⟨_, hstill.holds.chooses hs⟩
  | yielded hs => exact .inl ⟨_, (still_quiet (.refl m)).holds.chooses hs⟩
  | @stackSet stack n hn =>
    have hstill : m.Still (m.modifyProcess target (Process.setUserStack stack)) :=
      still_modify fun _ _ hp => hp
    exact .inr (hstill.trans (still_of_kernel (by rw [hn]))).holds

theorem turned_served {q : Request} {reply : Completion} (hm : m.kernel.Bound)
    (h : m.serve q = .done n reply) : (∃ c, m.Chooses n c) ∨ m.Holds n := by
  obtain ⟨p, hp, ⟨_, hq, _⟩ | ⟨target, op, note, v, _, _, hv, hq⟩⟩ := serve_done h
  · exact .inr (still_quiet hq).holds
  · rcases turned_performed (m := m.note note) hm (currentProcess?_eq_some hp).1 hv with
      ⟨c, hc⟩ | hheld
    · exact .inl ⟨c, (still_quiet (m.quiet_note note)).chooses (hc.still (still_quiet hq))⟩
    · exact .inr ((still_quiet (m.quiet_note note)).holds_trans (hheld.still (still_quiet hq)))

theorem turned_requested {locks : Locks} {v : Machine} {reply : Completion} (hm : m.kernel.Bound)
    (hv : { m with locks }.serve m.frame.request = .done v reply)
    (hn : (v.completed caller reply).Quiet n) : (∃ c, m.Chooses n c) ∨ m.Holds n := by
  have hlocks := still_quiet (m.quiet_locks locks)
  have hstill := (still_completed v caller reply).trans (still_quiet hn)
  rcases turned_served (m := { m with locks }) hm hv with ⟨c, hc⟩ | hheld
  · exact .inl ⟨c, hlocks.chooses (hc.still hstill)⟩
  · exact .inr (hlocks.holds_trans (hheld.still hstill))

theorem chooses_booted {entry : VirtAddr} {k : Kernel} {w v : Machine}
    (hk : m.kernel.create entry m.kernel.config.stackMap true = .ok (p, k))
    (hw : (m.setKernel k).Quiet w) (hv : w.schedule = .done v c) (hn : v.Quiet n) :
    m.Chooses n c :=
  (((holds_create (Kernel.creates_of_create hk)).still (still_quiet hw)).chooses hv).still
    (still_quiet hn)

theorem chooses_preempted {w v : Machine} (hw : m.Quiet w)
    (hv : w.tickSlice.schedule = .done v c) (hn : v.Quiet n) : m.Chooses n c :=
  (still_quiet hw).chooses ((chooses_of_tickSlice hv).still (still_quiet hn))

/-- What an action has the scheduler do: a selection, or nothing, or a tick that does not use up
the time slice. -/
inductive Turned (m : Machine) (a : Action) (n : Machine) : Prop where
  | chose {c : ProcessId} : m.Chooses n c → Turned m a n
  | held : (a = .timer → m.kernel.current = none) → m.Holds n → Turned m a n
  | ticked {w : Machine} : m.Still w → w.kernel.scheduler.tick.shouldPreempt = false →
      w.tickSlice.Still n → Turned m a n

theorem turned_acted {a : Action} (hm : m.kernel.Bound) (h : m.Acted a n) : m.Turned a n := by
  cases h with
  | @computed frame memory idle =>
    have hstill : m.Still (m.compute frame memory idle) :=
      (still_quiet (m.quiet_setMemory memory)).trans (still_of_kernel rfl)
    exact .held (by rintro ⟨⟩) hstill.holds
  | quietly _ htimer hq => exact .held htimer (still_quiet hq).holds
  | booted hk hw hv hn => exact .chose (chooses_booted hk hw hv hn)
  | requested _ _ hv hn =>
    rcases turned_requested hm hv hn with ⟨c, hc⟩ | hheld
    · exact .chose hc
    · exact .held (by rintro ⟨⟩) hheld
  | ticked hw _ hs hn => exact .ticked (still_quiet hw) hs (still_quiet hn)
  | preempted hw _ _ hv hn => exact .chose (chooses_preempted hw hv hn)
  | @shutDown w n hw hn =>
    have hnone : ∀ id, n.kernel.processes.get? id = none := fun id =>
      hn.processes.eq_none_iff.2 (Registry.get?_empty id)
    refine .held (by rintro ⟨⟩) ⟨hn.config.trans hw.config, hn.cursor.trans hw.cursor,
      hn.timeSlice.trans hw.timeSlice, hn.remaining.trans hw.remaining,
      hn.switches.trans hw.switches, fun {id q} hq => ?_, ?_⟩
    · rw [hnone] at hq
      cases hq
    · intro id p q _ _ hq
      rw [hnone] at hq
      cases hq

end Machine
end Nucleus
