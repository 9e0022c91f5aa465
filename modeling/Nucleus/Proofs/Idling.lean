import Mathlib.Order.Bounds.Basic
import Nucleus.Proofs.Arrivals
import Nucleus.Proofs.Bystander
import Nucleus.Proofs.Turns

/-!
# Nucleus.Proofs.Idling

A scheduling decision from its beginning to its end, with all that arrives while the CPU idles.
Between two waits the kernel does the same as it would do if it only looked: it delivers what is in
the inbox and ends the sleeps that are over. So it is enough to follow one machine that looks after
each wait and never chooses anybody; the decision ends with the first look at which that machine has
a ready process.

* `RoundRobin.rank`: the place of an identifier in the circular order behind the cursor.
* `Machine.looked`: the machine after some waits, when it has looked.
* `Looked`, `looked_sleeping`: what the waits add up to, and which sleeps end.
* `selectNext_done_iff`: a decision is the first look at which some process is ready.
* `Elects`, `schedule_elects`: what a decision has done when it returns, and when it does.
-/

namespace Nucleus

/-! ### The circular order -/

namespace RoundRobin

variable {s s' : RoundRobin} {r : Registry} {p q : Process}

/-- The place of an identifier in the circular order that begins behind the cursor. -/
def rank (cursor : Option ProcessId) (id : ProcessId) : Nat :=
  match cursor with
  | none => id.toNat
  | some c => distance (some c) id

/-- The process to select comes before all other ready ones in the circular order. -/
theorem rank_next? (h : s.next? r = some p) (hq : q ∈ readyIn r) (hne : q.id ≠ p.id) :
    rank s.cursor p.id < rank s.cursor q.id := by
  have hne' : p.id.toNat ≠ q.id.toNat := fun e => hne (UInt64.toNat_inj.1 e).symm
  have hplt := Word.toNat_lt p.id
  cases hc : s.cursor with
  | none =>
    rw [next?_of_none hc] at h
    have hle := le_of_head? (sorted_readyIn r) h hq
    show p.id.toNat < q.id.toNat
    omega
  | some c =>
    rw [next?_of_some hc] at h
    show distance (some c) p.id < distance (some c) q.id
    cases hf : (readyIn r).find? fun p => c < p.id with
    | some p' =>
      rw [hf] at h
      cases h
      have hcp := lt_of_find? hf
      rw [distance_of_lt hcp]
      rcases Nat.lt_or_ge c.toNat q.id.toNat with hcq | hqc
      · have hle := le_of_find? (sorted_readyIn r) hf hq
          (decide_eq_true (UInt64.lt_iff_toNat_lt.2 hcq))
        rw [distance_of_lt hcq]
        omega
      · rw [distance_of_le hqc]
        omega
    | none =>
      -- Nobody is ready behind the cursor, so the order begins anew.
      rw [hf] at h
      have hle := le_of_head? (sorted_readyIn r) h hq
      have hbehind : ∀ u ∈ readyIn r, u.id.toNat ≤ c.toNat := fun u hu =>
        Nat.not_lt.1 fun hcu => List.find?_eq_none.1 hf u hu
          (decide_eq_true (UInt64.lt_iff_toNat_lt.2 hcu))
      have hpc := hbehind p (List.mem_of_head? h)
      have hclt := Word.toNat_lt c
      rw [distance_of_le hpc, distance_of_le (hbehind q hq)]
      omega

theorem mem_readyIn_of_get? {id : ProcessId} (hp : r.get? id = some p) (hready : p.state = .ready) :
    p ∈ readyIn r :=
  mem_readyIn.2 ⟨(Registry.get?_eq_some_iff.1 hp).1, hready⟩

/-- Nothing is selected exactly where no process is ready. -/
theorem select_eq_none_iff :
    s.select r = none ↔ ¬ ∃ id p, r.get? id = some p ∧ p.state = .ready := by
  constructor
  · rintro h ⟨id, p, hp, hready⟩
    obtain ⟨u, hu⟩ := Option.isSome_iff_exists.1
      (isSome_next? (s := s) (mem_readyIn_of_get? hp hready))
    unfold select at h
    rw [hu] at h
    cases h
  · intro h
    cases hs : s.select r with
    | none => rfl
    | some u =>
      obtain ⟨p, s'⟩ := u
      obtain ⟨_, hp, hready, _⟩ := select_eq_some hs
      exact absurd ⟨p.id, p, hp, hready⟩ h

end RoundRobin

/-- A deadline that was reached stays so. -/
theorem Process.isOverdue_mono {now now' : Instant} {p : Process} (hle : now.ticks ≤ now'.ticks)
    (h : p.isOverdue now = true) : p.isOverdue now' = true := by
  unfold isOverdue at h ⊢
  split at h
  · rw [Bool.and_eq_true] at h ⊢
    refine ⟨h.1, ?_⟩
    have hreached : _ ≤ now.ticks := of_decide_eq_true h.2
    exact decide_eq_true (UInt64.le_trans hreached hle)
  · cases h

namespace Machine

variable {m n w : Machine} {id j : ProcessId} {p q : Process} {k : Nat}
  {wait : List Arrival} {waits : List (List Arrival)}

/-! ### Looks -/

/-- Some process is ready. -/
def SomeReady (m : Machine) : Prop :=
  ∃ id p, m.kernel.processes.get? id = some p ∧ p.state = .ready

/-- The machine after some waits, when it has looked, whether or not it has found somebody ready. -/
def looked (m : Machine) : List (List Arrival) → Outcome Unit
  | [] => .done m.settle ()
  | wait :: rest => (m.settle.startWait.arriveAll wait).andThen fun n _ => n.looked rest

/-- The events of a wait for which the inbox has room. It is empty when the wait begins. -/
def heardIn (m : Machine) (wait : List Arrival) : List (ProcessId × Event) :=
  (wait.flatMap m.kernel.devices.vectors.heard).take m.kernel.devices.inbox.queue.capacity

/-- The events that are delivered at a look and after each of the waits that follow it. -/
def heardAfter (m : Machine) (waits : List (List Arrival)) : List (ProcessId × Event) :=
  m.kernel.devices.inbox.pending ++ waits.flatMap m.heardIn

/-- An event reaches a sleeping process, or its deadline does. -/
def Stirs (n : Machine) (heard : List (ProcessId × Event)) (id : ProcessId) (p : Process) : Prop :=
  (∃ e, (id, e) ∈ heard) ∨ ∃ now, n.kernel.now? = some now ∧ p.isOverdue now = true

theorem devices_settle (m : Machine) : m.settle.kernel.devices =
    { m.kernel.devices with inbox := m.kernel.devices.inbox.clear } := by
  show m.deliverEvents.kernel.wakeExpired.devices = _
  unfold Kernel.wakeExpired
  split <;> rfl

theorem scheduler_settle (m : Machine) : m.settle.kernel.scheduler = m.kernel.scheduler := by
  show m.deliverEvents.kernel.wakeExpired.scheduler = _
  unfold Kernel.wakeExpired
  split <;> rfl

theorem now?_settle (m : Machine) : m.settle.kernel.now? = m.kernel.now? := by
  unfold Kernel.now?
  rw [devices_settle]

theorem get?_wakeExpired (m : Machine) (id : ProcessId) :
    m.wakeExpired.kernel.processes.get? id = (m.kernel.processes.get? id).map fun p =>
      match m.kernel.now? with
      | none => p
      | some now => p.checkTimer now := by
  cases hn : m.kernel.now? with
  | none =>
    rw [wakeExpired_of_none hn]
    exact (Option.map_id' ..).symm
  | some now =>
    show m.wakeExpired.traffic.processes.get? id = _
    rw [traffic_wakeExpired hn]
    exact Registry.get?_wakeExpired ..

theorem checkTimer_of_overdue {now : Instant} (h : p.isOverdue now = true) :
    (p.checkTimer now).state = .ready := by
  unfold Process.checkTimer
  rw [if_pos h]

theorem checkTimer_of_ahead {now : Instant} (h : ¬ p.isOverdue now = true) :
    p.checkTimer now = p :=
  if_neg h

/-- A look ends a sleep exactly if there is an event for the sleeper or its deadline is over. -/
theorem settle_sleeping (hp : m.kernel.processes.get? id = some p) (hs : p.state = .sleeping) :
    (m.Stirs m.kernel.devices.inbox.pending id p →
      ∃ q, m.settle.kernel.processes.get? id = some q ∧ q.state = .ready) ∧
    (¬ m.Stirs m.kernel.devices.inbox.pending id p →
      m.settle.kernel.processes.get? id = some p) := by
  have hget : m.settle.kernel.processes.get? id =
      ((m.kernel.processes.deliverAll m.kernel.devices.inbox.pending).get? id).map fun p =>
        match m.kernel.now? with
        | none => p
        | some now => p.checkTimer now := get?_wakeExpired m.deliverEvents id
  by_cases hevent : ∃ e, (id, e) ∈ m.kernel.devices.inbox.pending
  · refine ⟨fun _ => ?_, fun hnot => absurd (.inl hevent) hnot⟩
    obtain ⟨e, he⟩ := hevent
    obtain ⟨q, hq, hready⟩ := Registry.ready_deliverAll ⟨(id, e), he, rfl⟩ hp hs
    obtain ⟨u, hu, hroused⟩ := (quiet_wakeExpired m.deliverEvents).processes.forth hq
    refine ⟨u, hu, (hroused.state_eq ?_).trans hready⟩
    rw [hready]
    rintro ⟨⟩
  · have hnone : ∀ item ∈ m.kernel.devices.inbox.pending, item.1 ≠ id := by
      rintro ⟨owner, e⟩ hitem rfl
      exact hevent ⟨e, hitem⟩
    rw [Registry.get?_deliverAll_of_ne hnone, hp] at hget
    rw [hget]
    unfold Stirs
    cases m.kernel.now? with
    | none => simp [hevent]
    | some now =>
      by_cases hover : p.isOverdue now = true
      · simp [hover, checkTimer_of_overdue]
      · simp [hevent, hover, checkTimer_of_ahead]

/-- What waits and looks add up to. -/
structure Looked (m : Machine) (waits : List (List Arrival)) (w : Machine) : Prop where
  quiet : m.Quiet w
  idle : w.idle = m.idle
  locks : w.locks = m.locks
  installed : w.installed = m.installed
  idleWaits : w.kernel.scheduler.idleWaits = m.kernel.scheduler.idleWaits + waits.length
  vectors : w.kernel.devices.vectors = m.kernel.devices.vectors
  pending : w.kernel.devices.inbox.pending = []
  clock : Clock.Passed (waits.flatten.count .tick) m.kernel.devices.clock w.kernel.devices.clock
  sleeping : ∀ {id p}, m.kernel.processes.get? id = some p → p.state = .sleeping →
    (w.Stirs (m.heardAfter waits) id p →
      ∃ q, w.kernel.processes.get? id = some q ∧ q.state = .ready) ∧
    (¬ w.Stirs (m.heardAfter waits) id p → w.kernel.processes.get? id = some p)

theorem looked_settle (m : Machine) : m.Looked [] m.settle := by
  refine ⟨m.quiet_settle, rfl, rfl, rfl, ?_, ?_, ?_, ?_, fun hp hs => ?_⟩
  · rw [scheduler_settle]
    rfl
  · rw [devices_settle]
  · rw [devices_settle]
    rfl
  · rw [devices_settle]
    exact .refl _
  · have h := settle_sleeping hp hs
    unfold Stirs heardAfter
    rw [now?_settle, List.flatMap_nil, List.append_nil]
    exact h

/-- The machine when a wait is over. -/
structure Waited (m : Machine) (wait : List Arrival) (n : Machine) : Prop where
  quiet : m.settle.Quiet n
  idle : n.idle = m.idle
  locks : n.locks = m.locks
  installed : n.installed = m.installed
  processes : n.kernel.processes = m.settle.kernel.processes
  idleWaits : n.kernel.scheduler.idleWaits = m.kernel.scheduler.idleWaits + 1
  vectors : n.kernel.devices.vectors = m.kernel.devices.vectors
  capacity : n.kernel.devices.inbox.queue.capacity = m.kernel.devices.inbox.queue.capacity
  pending : n.kernel.devices.inbox.pending = m.heardIn wait
  clock : Clock.Passed (wait.count .tick) m.kernel.devices.clock n.kernel.devices.clock

theorem waited_arriveAll {u : Unit} (h : m.settle.startWait.arriveAll wait = .done n u) :
    m.Waited wait n := by
  have hheard := heard_arriveAll h
  have hdevices : m.settle.startWait.kernel.devices =
      { m.kernel.devices with inbox := m.kernel.devices.inbox.clear } := devices_settle m
  have hinbox := hheard.inbox
  have hclock := hheard.clock
  have hvectors := hheard.vectors
  rw [hdevices] at hinbox hclock hvectors
  refine ⟨(quiet_startWait _).trans (quiet_arriveAll h), hheard.idle, hheard.locks,
    hheard.installed, hheard.processes, ?_, hvectors, ?_, ?_, hclock⟩
  · rw [hheard.scheduler]
    show m.settle.kernel.scheduler.idleWaits + 1 = _
    rw [scheduler_settle]
  · rw [hinbox, Inbox.capacity_pushAll]
    rfl
  · rw [hinbox, Inbox.pending_pushAll]
    rfl

theorem Waited.heardAfter (h : m.Waited wait n) (waits : List (List Arrival)) :
    m.heardAfter (wait :: waits) =
      m.kernel.devices.inbox.pending ++ n.heardAfter waits := by
  have hin : n.heardIn = m.heardIn := by
    funext wait
    unfold Machine.heardIn
    rw [h.vectors, h.capacity]
  unfold Machine.heardAfter
  rw [h.pending, hin, List.flatMap_cons]

/-- The time after a wait is not before the time it began. -/
theorem now?_of_passed {count : Nat} {now : Instant}
    (h : Clock.Passed count m.kernel.devices.clock n.kernel.devices.clock)
    (hn : m.kernel.now? = some now) :
    ∃ now', n.kernel.now? = some now' ∧ now.ticks ≤ now'.ticks := by
  unfold Kernel.now? at hn ⊢
  cases hc : m.kernel.devices.clock with
  | none =>
    rw [hc] at hn
    cases hn
  | some c =>
    rw [hc] at hn h
    cases hn
    cases hc' : n.kernel.devices.clock with
    | none =>
      rw [hc'] at h
      cases h
    | some c' =>
      rw [hc'] at h
      cases h with
      | some h =>
        refine ⟨c'.now, rfl, UInt64.le_iff_toNat_le.2 ?_⟩
        show c.ticks.toNat ≤ c'.ticks.toNat
        omega

theorem Waited.cons (h : m.Waited wait n) (h' : n.Looked waits w) : m.Looked (wait :: waits) w := by
  have hclock : Clock.Passed ((wait :: waits).flatten.count .tick) m.kernel.devices.clock
      w.kernel.devices.clock := by
    rw [List.flatten_cons, List.count_append]
    exact h.clock.trans h'.clock
  refine ⟨(m.quiet_settle.trans h.quiet).trans h'.quiet, h'.idle.trans h.idle,
    h'.locks.trans h.locks, h'.installed.trans h.installed, ?_, h'.vectors.trans h.vectors,
    h'.pending, hclock, fun {id p} hp hs => ?_⟩
  · rw [h'.idleWaits, h.idleWaits, List.length_cons]
    omega
  · have hfirst := settle_sleeping hp hs
    rw [← h.processes] at hfirst
    have hstirs : w.Stirs (m.heardAfter (wait :: waits)) id p ↔
        m.Stirs m.kernel.devices.inbox.pending id p ∨ w.Stirs (n.heardAfter waits) id p := by
      rw [h.heardAfter]
      unfold Stirs
      simp only [List.mem_append, exists_or]
      constructor
      · rintro ((hp | hl) | hover)
        · exact .inl (.inl hp)
        · exact .inr (.inl hl)
        · exact .inr (.inr hover)
      · rintro ((hp | ⟨now, hnow, hover⟩) | (hl | hover))
        · exact .inl (.inl hp)
        · obtain ⟨now', hnow', hle⟩ := now?_of_passed hclock hnow
          exact .inr ⟨now', hnow', Process.isOverdue_mono hle hover⟩
        · exact .inl (.inr hl)
        · exact .inr hover
    rw [hstirs]
    by_cases hnow : m.Stirs m.kernel.devices.inbox.pending id p
    · -- Whoever was woken at the first look stays so.
      refine ⟨fun _ => ?_, fun hnot => absurd (.inl hnow) hnot⟩
      obtain ⟨q, hq, hready⟩ := hfirst.1 hnow
      obtain ⟨u, hu, hroused⟩ := h'.quiet.processes.forth hq
      refine ⟨u, hu, (hroused.state_eq ?_).trans hready⟩
      rw [hready]
      rintro ⟨⟩
    · rw [or_iff_right hnow]
      exact h'.sleeping (hfirst.2 hnow) hs

theorem looked_done {waits : List (List Arrival)} :
    ∀ {m w : Machine} {u : Unit}, m.looked waits = .done w u → m.Looked waits w := by
  induction waits with
  | nil =>
    intro m w u h
    cases h
    exact m.looked_settle
  | cons wait waits ih =>
    intro m w u h
    obtain ⟨n, u', hn, hw⟩ := Outcome.andThen_eq_done_iff.1 h
    exact (waited_arriveAll hn).cons (ih hw)

/-! ### Decisions -/

theorem selectNext_of_ready {active : Option PhysAddr} {s : RoundRobin}
    (h : m.settle.kernel.scheduler.select m.settle.kernel.processes = some (p, s)) :
    selectNext active waits m = .done { m.settle.giveCpu active p s with idle := waits } p.id := by
  unfold selectNext
  simp only [h]

theorem selectNext_of_none {active : Option PhysAddr} (h : ¬ m.settle.SomeReady) :
    selectNext active (wait :: waits) m =
      (m.settle.startWait.arriveAll wait).andThen fun n _ => selectNext active waits n := by
  have hnone := RoundRobin.select_eq_none_iff (s := m.settle.kernel.scheduler).2 h
  rw [selectNext]
  simp only [hnone]

theorem selectNext_nil_of_none {active : Option PhysAddr} (h : ¬ m.settle.SomeReady) :
    selectNext active [] m = m.settle.startWait.stop .idleForever := by
  have hnone := RoundRobin.select_eq_none_iff (s := m.settle.kernel.scheduler).2 h
  rw [selectNext]
  simp only [hnone]

theorem looked_cons {u : Unit} (h : m.settle.startWait.arriveAll wait = .done n u) :
    m.looked (wait :: waits) = n.looked waits := by
  rw [looked, h]
  rfl

/-- A decision ends with the first look at which a process is ready. -/
theorem selectNext_looked {active : Option PhysAddr} {waits : List (List Arrival)} :
    ∀ {m n : Machine} {id : ProcessId}, selectNext active waits m = .done n id →
      ∃ k w p s, k ≤ waits.length ∧ m.looked (waits.take k) = .done w () ∧
        (∀ j < k, ∃ v, m.looked (waits.take j) = .done v () ∧ ¬ v.SomeReady) ∧
        w.kernel.scheduler.select w.kernel.processes = some (p, s) ∧ p.id = id ∧
        n = { w.giveCpu active p s with idle := waits.drop k } := by
  induction waits with
  | nil =>
    intro m n id h
    unfold selectNext at h
    simp only at h
    split at h
    · rename_i p s hs
      cases h
      exact ⟨0, m.settle, p, s, Nat.le_refl _, rfl, fun j hj => (nomatch hj), hs, rfl, rfl⟩
    · cases h
  | cons wait waits ih =>
    intro m n id h
    by_cases hready : m.settle.SomeReady
    · cases hs : m.settle.kernel.scheduler.select m.settle.kernel.processes with
      | none => exact absurd hready (RoundRobin.select_eq_none_iff.1 hs)
      | some u =>
        obtain ⟨p, s⟩ := u
        rw [selectNext_of_ready hs] at h
        cases h
        exact ⟨0, m.settle, p, s, Nat.zero_le _, rfl, fun j hj => (nomatch hj), hs, rfl, rfl⟩
    · rw [selectNext_of_none hready] at h
      obtain ⟨v, u, hv, h⟩ := Outcome.andThen_eq_done_iff.1 h
      obtain ⟨k, w, p, s, hk, hw, hearlier, hs, hid, hn⟩ := ih h
      refine ⟨k + 1, w, p, s, Nat.succ_le_succ hk, ?_, fun j hj => ?_, hs, hid, hn⟩
      · rw [List.take_succ_cons, looked_cons hv, hw]
      · cases j with
        | zero => exact ⟨m.settle, rfl, hready⟩
        | succ j =>
          rw [List.take_succ_cons, looked_cons hv]
          exact hearlier j (Nat.lt_of_succ_lt_succ hj)

/-- Where a process is ready after some waits, a decision ends there or before. -/
theorem selectNext_of_looked {active : Option PhysAddr} {waits : List (List Arrival)} :
    ∀ {m w : Machine} {k : Nat}, k ≤ waits.length → m.looked (waits.take k) = .done w () →
      w.SomeReady → ∃ n id, selectNext active waits m = .done n id := by
  induction waits with
  | nil =>
    intro m w k hk hw hready
    cases Nat.le_zero.1 hk
    cases hw
    cases hs : m.settle.kernel.scheduler.select m.settle.kernel.processes with
    | none => exact absurd hready (RoundRobin.select_eq_none_iff.1 hs)
    | some u => exact ⟨_, _, selectNext_of_ready hs⟩
  | cons wait waits ih =>
    intro m w k hk hw hready
    cases hs : m.settle.kernel.scheduler.select m.settle.kernel.processes with
    | some u => exact ⟨_, _, selectNext_of_ready hs⟩
    | none =>
      have hnone : ¬ m.settle.SomeReady := RoundRobin.select_eq_none_iff.1 hs
      cases k with
      | zero =>
        cases hw
        exact absurd hready hnone
      | succ k =>
        rw [List.take_succ_cons] at hw
        obtain ⟨v, u, hv, hw⟩ := Outcome.andThen_eq_done_iff.1 hw
        rw [selectNext_of_none hnone, hv]
        exact ih (Nat.le_of_succ_le_succ hk) hw hready

/-- After so many waits of a decision some process is ready; the process with the CPU counts as
ready if it runs. -/
def ReadyAfter (m : Machine) (k : Nat) : Prop :=
  k ≤ m.idle.length ∧ ∃ w, m.suspendCurrent.looked (m.idle.take k) = .done w () ∧ w.SomeReady

/-- A decision returns exactly if some process is ready after so many of the waits. -/
theorem schedule_returns_iff (hb : m.kernel.booted = true) :
    (∃ n id, m.schedule = .done n id) ↔ ∃ k, m.ReadyAfter k := by
  unfold schedule
  rw [if_pos hb]
  constructor
  · rintro ⟨n, id, h⟩
    obtain ⟨k, w, p, s, hk, hw, _, hs, _⟩ := selectNext_looked h
    obtain ⟨_, hp, hready, _⟩ := RoundRobin.select_eq_some hs
    exact ⟨k, hk, w, hw, p.id, p, hp, hready⟩
  · rintro ⟨k, hk, w, hw, hready⟩
    exact selectNext_of_looked hk hw hready

/-- All that is suspended is the process with the CPU. -/
theorem suspendCurrent_eq (m : Machine) :
    m.suspendCurrent = m.setProcesses m.suspendCurrent.kernel.processes := by
  unfold suspendCurrent
  split <;> rfl

/-- The events that are delivered in the first waits of a decision and before them. -/
def heardBy (m : Machine) (k : Nat) : List (ProcessId × Event) :=
  m.heardAfter (m.idle.take k)

/-- What a decision has done when it returns `id` after `k` waits. -/
structure Elects (m : Machine) (k : Nat) (id : ProcessId) (n : Machine) : Prop where
  /-- It has waited no more than it needed to. -/
  least : IsLeast { k | m.ReadyAfter k } k
  atOnce : ∀ {p}, m.kernel.currentProcess? = some p → p.state = .running → k = 0
  /-- It chooses the first process behind the cursor of those that were ready at its last look. -/
  first : ∃ w, m.suspendCurrent.looked (m.idle.take k) = .done w () ∧
    (∃ p, w.kernel.processes.get? id = some p ∧ p.state = .ready) ∧
    ∀ j q, w.kernel.processes.get? j = some q → q.state = .ready → j ≠ id →
      RoundRobin.rank m.kernel.scheduler.cursor id < RoundRobin.rank m.kernel.scheduler.cursor j
  current : n.kernel.current = some id
  running : ∀ {j q}, n.kernel.processes.get? j = some q → (q.state = .running ↔ j = id)
  selected : ∃ p, n.kernel.processes.get? id = some p ∧ p.state = .running ∧ p.context = n.frame
  idle : n.idle = m.idle.drop k
  idleWaits : n.kernel.scheduler.idleWaits = m.kernel.scheduler.idleWaits + k
  switches : n.kernel.scheduler.switches = m.kernel.scheduler.switches + 1
  inbox : n.kernel.devices.inbox.pending = []
  clock : Clock.Passed ((m.idle.take k).flatten.count .tick) m.kernel.devices.clock
    n.kernel.devices.clock
  waiting : ∀ {j p}, m.kernel.processes.get? j = some p → p.state = .waiting →
    ∃ q, n.kernel.processes.get? j = some q ∧ q.state = .waiting
  /-- Who sleeps goes on to, unless there is an event for it or its deadline is over. -/
  sleeping : ∀ {j p}, m.kernel.processes.get? j = some p → p.state = .sleeping →
    (¬ n.Stirs (m.heardBy k) j p → n.kernel.processes.get? j = some (m.suspended p)) ∧
    (n.Stirs (m.heardBy k) j p →
      ∃ q, n.kernel.processes.get? j = some q ∧ q.state = if j = id then .running else .ready)

theorem devices_suspendCurrent (m : Machine) :
    m.suspendCurrent.kernel.devices = m.kernel.devices := by
  rw [suspendCurrent_eq]
  rfl

/-- Being suspended does not end a sleep. -/
theorem suspended_of_sleeping (m : Machine) (hs : p.state = .sleeping) :
    (m.suspended p).state = .sleeping ∧
      ∀ now, (m.suspended p).isOverdue now = p.isOverdue now := by
  unfold suspended
  split
  · unfold Process.suspend Process.isOverdue
    simp [hs]
  · exact ⟨hs, fun _ => rfl⟩

/-- A process that runs is ready at the first look. -/
theorem readyAfter_zero (hp : m.kernel.currentProcess? = some p) (hrun : p.state = .running) :
    m.ReadyAfter 0 := by
  obtain ⟨hc, hget⟩ := currentProcess?_eq_some hp
  have hsuspended : m.suspendCurrent.kernel.processes.get? p.id = some (m.suspended p) := by
    rw [get?_suspendCurrent, hget]
    rfl
  have hready : (m.suspended p).state = .ready := by
    unfold suspended Process.suspend
    rw [if_pos hc]
    exact if_pos hrun
  obtain ⟨q, hq, hroused⟩ := m.suspendCurrent.quiet_settle.processes.forth hsuspended
  refine ⟨Nat.zero_le _, m.suspendCurrent.settle, rfl, p.id, q, hq, (hroused.state_eq ?_).trans
    hready⟩
  rw [hready]
  rintro ⟨⟩

/-- A decision that returns after `k` waits has given the CPU to `p`, which was ready at the last
look, on `w`, and at none before it. -/
structure Ends (m : Machine) (k : Nat) (w : Machine) (p : Process) (n : Machine) : Prop where
  booted : m.kernel.booted = true
  bounded : k ≤ m.idle.length
  looked : m.suspendCurrent.looked (m.idle.take k) = .done w ()
  earlier : ∀ j < k, ∃ v, m.suspendCurrent.looked (m.idle.take j) = .done v () ∧ ¬ v.SomeReady
  next : w.kernel.scheduler.next? w.kernel.processes = some p
  found : w.kernel.processes.get? p.id = some p
  ready : p.state = .ready
  kernel : n.kernel = { w.kernel with
    processes := w.kernel.processes.modify p.id Process.run
    current := some p.id
    scheduler := w.kernel.scheduler.selected p.id }
  idle : n.idle = m.idle.drop k
  locks : n.locks = w.locks
  installed : n.installed = w.installed

theorem schedule_ends (h : m.schedule = .done n id) : ∃ k w p, p.id = id ∧ m.Ends k w p n := by
  unfold schedule at h
  split at h
  · rename_i hb
    obtain ⟨k, w, p, s, hk, hw, hearlier, hs, rfl, rfl⟩ := selectNext_looked h
    obtain ⟨hnext, hp, hready, rfl⟩ := RoundRobin.select_eq_some hs
    refine ⟨k, w, p, rfl, hb, hk, hw, hearlier, hnext, hp, hready, ?_, rfl, ?_, ?_⟩
    · show (giveCpu ..).kernel = _
      rw [kernel_giveCpu]
    · show (giveCpu ..).locks = _
      unfold giveCpu
      simp only
      split <;> rfl
    · show (giveCpu ..).installed = _
      unfold giveCpu
      simp only
      split <;> rfl
  · cases h

theorem Ends.readyAfter (h : m.Ends k w p n) : m.ReadyAfter k :=
  ⟨h.bounded, w, h.looked, p.id, p, h.found, h.ready⟩

theorem Ends.isLeast (h : m.Ends k w p n) : IsLeast { k | m.ReadyAfter k } k := by
  refine ⟨h.readyAfter, ?_⟩
  rintro i ⟨_, v, hv, hready⟩
  refine Nat.not_lt.1 fun hlt => ?_
  obtain ⟨v', hv', hnone⟩ := h.earlier i hlt
  cases hv.symm.trans hv'
  exact hnone hready

theorem Ends.get? (h : m.Ends k w p n) (j : ProcessId) :
    n.kernel.processes.get? j =
      if j = p.id then (w.kernel.processes.get? j).map Process.run
      else w.kernel.processes.get? j := by
  rw [h.kernel]
  show (w.kernel.processes.modify p.id Process.run).get? j = _
  rw [Registry.get?_modify]

theorem Ends.locks_eq (h : m.Ends k w p n) : n.locks = m.locks := by
  rw [h.locks, (looked_done h.looked).locks, suspendCurrent_eq]
  rfl

theorem Ends.installed_eq (h : m.Ends k w p n) : n.installed = m.installed := by
  rw [h.installed, (looked_done h.looked).installed, suspendCurrent_eq]
  rfl

theorem Ends.idleWaits (h : m.Ends k w p n) :
    n.kernel.scheduler.idleWaits = m.kernel.scheduler.idleWaits + k := by
  rw [h.kernel]
  show w.kernel.scheduler.idleWaits = _
  rw [(looked_done h.looked).idleWaits, scheduler_suspendCurrent, List.length_take_of_le h.bounded]

theorem Ends.clock (h : m.Ends k w p n) :
    Clock.Passed ((m.idle.take k).flatten.count .tick) m.kernel.devices.clock
      n.kernel.devices.clock := by
  rw [h.kernel, ← m.devices_suspendCurrent]
  exact (looked_done h.looked).clock

/-- What a sleeper does meanwhile. -/
theorem Ends.sleeping (h : m.Ends k w p n) (hq : m.kernel.processes.get? j = some q)
    (hs : q.state = .sleeping) :
    (¬ n.Stirs (m.heardBy k) j q → n.kernel.processes.get? j = some (m.suspended q)) ∧
    (n.Stirs (m.heardBy k) j q → ∃ u, n.kernel.processes.get? j = some u ∧
      u.state = if j = p.id then .running else .ready) := by
  obtain ⟨hsuspended, hoverdue⟩ := m.suspended_of_sleeping hs
  have hget : m.suspendCurrent.kernel.processes.get? j = some (m.suspended q) := by
    rw [get?_suspendCurrent, hq]
    rfl
  have hlooked := (looked_done h.looked).sleeping hget hsuspended
  have hstirs : w.Stirs (m.suspendCurrent.heardAfter (m.idle.take k)) j (m.suspended q) ↔
      n.Stirs (m.heardBy k) j q := by
    unfold Stirs heardBy heardAfter heardIn Kernel.now?
    rw [devices_suspendCurrent, h.kernel]
    simp only [hoverdue]
  rw [hstirs] at hlooked
  refine ⟨fun hnot => ?_, fun hstirs => ?_⟩
  · have hsame := hlooked.2 hnot
    rw [h.get?, if_neg, hsame]
    rintro rfl
    rw [h.found] at hsame
    cases hsame
    rw [h.ready] at hsuspended
    cases hsuspended
  · obtain ⟨u, hu, hready⟩ := hlooked.1 hstirs
    rw [h.get?, hu]
    split
    · exact ⟨u.run, rfl, rfl⟩
    · exact ⟨u, rfl, hready⟩

theorem schedule_elects (hm : m.kernel.OnlyCurrentRuns) (h : m.schedule = .done n id) :
    ∃ k, m.Elects k id n := by
  have hd := decision_of_schedule h
  have hbound := bound_of_decision hd hm
  obtain ⟨k, w, p, rfl, he⟩ := schedule_ends h
  have hl := looked_done he.looked
  refine ⟨k, he.isLeast, fun hc hrun => ?_, ⟨w, he.looked, ⟨p, he.found, he.ready⟩, ?_⟩,
    hd.current, fun hq => ?_, hd.selected, he.idle, he.idleWaits, hd.switches, ?_, he.clock,
    fun hq hwaiting => ?_, he.sleeping⟩
  · exact Nat.le_zero.1 (he.isLeast.2 (readyAfter_zero hc hrun))
  · intro j q hq hready hne
    have hcursor : w.kernel.scheduler.cursor = m.kernel.scheduler.cursor := by
      rw [hl.quiet.cursor, scheduler_suspendCurrent]
    have hid := Registry.id_of_get? hq
    rw [← hcursor, ← hid]
    exact RoundRobin.rank_next? he.next (RoundRobin.mem_readyIn_of_get? hq hready)
      (by rw [hid]; exact hne)
  · rw [hbound.running_iff hq, hd.current, Option.some.injEq, eq_comm]
  · rw [he.kernel]
    exact hl.pending
  · obtain ⟨u, hu, hpasses⟩ := hd.table.forth hq
    exact ⟨u, hu, (alike_passes hpasses).waiting_iff.2 hwaiting⟩

/-! ### Every state of the process table -/

/-- The machines to which the operations on processes lead, one by one, in whatever order they are
called: also those in the middle of a request. -/
inductive Managed : Machine → Prop where
  | start {kernel : Kernel} : kernel.Fresh → Managed (.start kernel)
  /-- Whatever is outside the kernel: the registers at the next trap, what will arrive while the CPU
  idles, the locks. -/
  | outside {m n : Machine} : Managed m → n.kernel = m.kernel → Managed n
  /-- Events, wakeups, ticks and interrupts. -/
  | quiet {m n : Machine} : Managed m → m.Quiet n → Managed n
  | create {m : Machine} {entry : VirtAddr} {privileged : Bool} {p : Process} {k : Kernel} :
      Managed m → m.kernel.Creates entry privileged p k → Managed (m.setKernel k)
  | remove {m : Machine} {id : ProcessId} {status : Word} {k : Kernel} :
      Managed m → m.kernel.remove id status = .ok k → Managed (m.setKernel k)
  /-- A change of a process that does not make it run. -/
  | change {m : Machine} {id : ProcessId} {f : Process → Process} {hf : ∀ p, (f p).id = p.id} :
      Managed m → (∀ p, m.kernel.processes.get? id = some p → (f p).state = .running →
        p.state = .running) → Managed (m.modifyProcess id f hf)
  | tick {m : Machine} : Managed m → Managed m.tickSlice
  | schedule {m n : Machine} {id : ProcessId} : Managed m → m.schedule = .done n id → Managed n
  | release {m : Machine} : Managed m → Managed m.releaseAll.1

theorem Managed.onlyCurrentRuns (h : m.Managed) : m.kernel.OnlyCurrentRuns := by
  induction h with
  | start hk => exact hk.bound.onlyCurrentRuns
  | outside _ hk ih => exact hk ▸ ih
  | quiet _ hq ih => exact onlyCurrentRuns_of_quiet hq ih
  | create _ hk ih => exact ih.create hk
  | remove _ hk ih => exact ih.remove hk
  | change _ hs ih => exact ih.modify hs
  | tick _ ih => exact ih
  | schedule _ hs ih => exact (bound_of_schedule hs ih).onlyCurrentRuns
  | release _ =>
    intro id p hp
    cases hp

theorem Managed.performed {caller target : ProcessId} {op : Operation} {c : Completion}
    (hm : m.Managed) (h : m.Performed caller target op n c) : n.Managed := by
  cases h with
  | quietly _ hq => exact hm.quiet hq
  | @spawned entry p k n hk hn _ =>
    have hparent : ((m.setKernel k).modifyProcess p.id (Process.setParent caller)).Managed :=
      (hm.create (Kernel.creates_of_create hk)).change fun _ _ hrun => hrun
    exact hparent.outside hn
  | killed hk hq hs => exact ((hm.remove hk).quiet hq).schedule hs
  | waited _ hs =>
    refine (hm.change fun p _ hrun => ?_).schedule hs
    cases hrun
  | slept _ hf hs =>
    refine (hm.change fun p hp hrun => ?_).schedule hs
    rw [hf p hp] at hrun
    cases hrun
  | yielded hs => exact hm.schedule hs
  | @stackSet stack n hn =>
    have hstack : (m.modifyProcess target (Process.setUserStack stack)).Managed :=
      hm.change fun _ _ hrun => hrun
    exact hstack.outside (by rw [hn])

theorem Managed.served {q : Request} {c : Completion} (hm : m.Managed)
    (h : m.serve q = .done n c) : n.Managed := by
  obtain ⟨p, _, ⟨_, hq, _⟩ | ⟨target, op, note, v, _, _, hv, hq⟩⟩ := serve_done h
  · exact hm.quiet hq
  · have hnoted : (m.note note).Managed := hm.outside rfl
    exact (hnoted.performed hv).quiet hq

theorem Managed.completed (hm : m.Managed) (caller : ProcessId) (c : Completion) :
    (m.completed caller c).Managed := by
  cases c with
  | deferred => exact hm
  | ready r =>
    show (m.answer caller r.encode).Managed
    unfold answer
    split
    · exact hm.outside rfl
    · exact hm.change fun _ _ hrun => hrun

theorem Managed.acted {a : Action} (hm : m.Managed) (h : m.Acted a n) : n.Managed := by
  cases h with
  | @computed frame memory idle =>
    have hmemory := hm.quiet (m.quiet_setMemory memory)
    exact hmemory.outside rfl
  | quietly _ _ hq => exact hm.quiet hq
  | booted hk hw hv hn =>
    exact (((hm.create (Kernel.creates_of_create hk)).quiet hw).schedule hv).quiet hn
  | requested _ _ hv hn =>
    have hserved : Managed _ := (hm.quiet (m.quiet_locks _)).served hv
    exact (hserved.completed _ _).quiet hn
  | ticked hw _ _ hn => exact ((hm.quiet hw).tick).quiet hn
  | preempted hw _ _ hv hn => exact (((hm.quiet hw).tick).schedule hv).quiet hn
  | shutDown hw hn => exact ((hm.quiet hw).release).quiet hn

theorem managed_of_reachable (hm : Reachable m) : m.Managed :=
  hm.invariant (fun hk => .start hk) fun _ => Managed.acted

/-- As soon as a process was created, a decision returns exactly if some process is ready after so
many waits, and when it returns it has waited no longer, has chosen the first ready process behind
the cursor, and has left those alone that wait or sleep and were neither sent an event nor reached
by their deadline. -/
theorem decision_idles (hm : m.Managed) (hb : m.kernel.booted = true) :
    ((∃ n id, m.schedule = .done n id) ↔ ∃ k, m.ReadyAfter k) ∧
    ∀ n id, m.schedule = .done n id → ∃ k, m.Elects k id n :=
  ⟨schedule_returns_iff hb, fun _ _ h => schedule_elects hm.onlyCurrentRuns h⟩

/-- Two processes, of which the second sleeps and watches line 1. -/
def oneWatcher : List Action :=
  .boot trialEntry :: calls 0 .spawn 0x2000 ++ calls 2 .watchLine 1 ++ calls 0 .yieldCpu 0 ++
    calls 0 .enterSleep 0

/-- The first process has to sleep as well, until the ninth tick. A tick and two interrupts later,
one of them on the line that is watched, the second one goes on, and the first one sleeps still. -/
theorem decision_idles_twice : ∃ m n : Machine, m.Managed ∧ m.kernel.booted = true ∧
    m.idle = [[.tick], [.interrupt 40, .interrupt 33], [.tick]] ∧ m.schedule = .done n 2 ∧
    m.Elects 2 2 n ∧ ∃ p, n.kernel.processes.get? 1 = some p ∧ p.state = .sleeping := by
  obtain ⟨v, hv, hcheck⟩ := Outcome.exists_of_endsIn (trial oneWatcher)
    (fun v =>
      let m : Machine := { v.modifyProcess 1 (Process.sleepUntil ⟨9, 1000⟩) with
        idle := [[.tick], [.interrupt 40, .interrupt 33], [.tick]] }
      m.kernel.booted && m.kernel.scheduler.idleWaits == 0 &&
        (forget m.schedule).endsIn fun n => n.kernel.current == some 2 &&
          n.kernel.scheduler.idleWaits == 2 &&
          (n.kernel.processes.get? 1).any fun p => p.state == .sleeping)
    (by decide +kernel)
  let m : Machine := { v.modifyProcess 1 (Process.sleepUntil ⟨9, 1000⟩) with
    idle := [[.tick], [.interrupt 40, .interrupt 33], [.tick]] }
  simp only [Bool.and_eq_true, beq_iff_eq] at hcheck
  obtain ⟨⟨hb, hbefore⟩, hends⟩ := hcheck
  obtain ⟨n, hn, hafter⟩ := Outcome.exists_of_endsIn _ _ hends
  simp only [Bool.and_eq_true, Option.any_eq_true, beq_iff_eq] at hafter
  obtain ⟨⟨hcurrent, hwaits⟩, p, hp, hs⟩ := hafter
  obtain ⟨id, hschedule⟩ := forget_done hn
  have hm : m.Managed := by
    have hsleeps : (v.modifyProcess 1 (Process.sleepUntil ⟨9, 1000⟩)).Managed :=
      (managed_of_reachable (.trial hv)).change fun p _ hrun => by cases hrun
    exact hsleeps.outside rfl
  obtain ⟨k, hk⟩ := (decision_idles hm hb).2 n id hschedule
  have hid : id = 2 := Option.some.inj (hk.current.symm.trans hcurrent)
  have hcount : k = 2 := by
    have := hk.idleWaits
    have hbefore : m.kernel.scheduler.idleWaits = 0 := hbefore
    omega
  subst hid hcount
  exact ⟨m, n, hm, hb, rfl, hschedule, hk, p, hp, hs⟩

end Machine
end Nucleus
