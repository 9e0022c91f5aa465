import Nucleus.Proofs.Circle
import Nucleus.Proofs.Idling

/-!
# Nucleus.Proofs.Batches

Interrupts that are delivered together and interrupts that are delivered one by one. A trap through
a line only fills the inbox, and the next tick delivers what has come together; the kernel's own way
to handle an interrupt delivers its events at once. As long as the inbox has room for all of them,
both come to the same at the next tick.

* `Outcome.bare`, `Machine.Silent`: what has been reported decides nothing.
* `silent_schedule`, `silent_timerInterrupt`: of a decision and of a tick that is so.
* `bare_announcedAll`: delivering in between makes no difference to what has been delivered.
* `deferred_eq_immediate`: the two ways agree.
-/

namespace Nucleus

/-- A machine without what has been reported. -/
def Machine.bare (m : Machine) : Machine :=
  { m with journal := [] }

/-- An outcome without what has been reported. -/
def Outcome.bare {α : Type} : Outcome α → Outcome α
  | .done m a => .done m.bare a
  | .fault f _ => .fault f []

/-! ### Events that all find room -/

/-- Events that are handed out in two goes are handed out. -/
theorem Registry.deliverAll_append (items items' : List (ProcessId × Event)) :
    ∀ r : Registry, r.deliverAll (items ++ items') = (r.deliverAll items).deliverAll items' := by
  induction items with
  | nil => exact fun _ => rfl
  | cons item rest ih => exact fun r => ih _

namespace Inbox

variable {i : Inbox} {events : List (ProcessId × Event)}

theorem pending_pushAll_of_room (h : i.pending.length + events.length ≤ i.queue.capacity) :
    (i.pushAll events).pending = i.pending ++ events := by
  rw [pending_pushAll, List.take_of_length_le (by omega)]

/-- Nothing is left of events that found room once the inbox is emptied. -/
theorem clear_pushAll_of_room (h : i.pending.length + events.length ≤ i.queue.capacity) :
    (i.pushAll events).clear = i.clear := by
  have hdropped : (i.pushAll events).dropped = i.dropped := by
    rw [(pushAll_eq events i).2]
    omega
  unfold clear BoundedQueue.clear
  simp only [mk.injEq, BoundedQueue.mk.injEq, true_and]
  exact ⟨capacity_pushAll events i, hdropped⟩

end Inbox

namespace Machine

variable {α β : Type} {m n : Machine} {frame : Registers}

/-! ### What has been reported decides nothing -/

/-- An operation does the same whatever has been reported. -/
def Silent (op : Machine → Outcome α) : Prop :=
  ∀ m : Machine, (op m).bare = (op m.bare).bare

theorem silent_done {f : Machine → Machine} {a : α} (h : ∀ m, (f m).bare = (f m.bare).bare) :
    Silent fun m => .done (f m) a :=
  fun m => congrArg (Outcome.done · a) (h m)

theorem silent_stop (f : Fault) : Silent fun m => (m.stop f : Outcome α) :=
  fun _ => rfl

theorem bare_andThen (o : Outcome α) {next : Machine → α → Outcome β}
    (h : ∀ a, Silent fun m => next m a) :
    (o.andThen next).bare = (o.bare.andThen next).bare := by
  cases o with
  | done m a => exact h a m
  | fault f j => rfl

theorem Silent.andThen {op : Machine → Outcome α} {next : Machine → α → Outcome β}
    (h : Silent op) (h' : ∀ a, Silent fun m => next m a) : Silent fun m => (op m).andThen next := by
  intro m
  show ((op m).andThen next).bare = ((op m.bare).andThen next).bare
  rw [bare_andThen _ h', h m, ← bare_andThen _ h']

theorem Silent.ite {c : Machine → Bool} {op op' : Machine → Outcome α}
    (hc : ∀ m : Machine, c m.bare = c m) (h : Silent op) (h' : Silent op') :
    Silent fun m => if c m then op m else op' m := by
  intro m
  simp only [hc]
  split
  · exact h m
  · exact h' m

/-- What comes before or after an operation may change anything but what has been reported. -/
theorem Silent.comp {op : Machine → Outcome α} (h : Silent op) {f : Machine → Machine}
    (hf : ∀ m : Machine, (f m).bare = (f m.bare).bare) : Silent fun m => op (f m) := by
  intro m
  show (op (f m)).bare = (op (f m.bare)).bare
  rw [h, hf, ← h]

theorem silent_withRoute {body : Machine → Outcome α} (h : Silent body) :
    Silent fun m => m.withRoute body :=
  .ite (c := fun m => m.locks.route) (fun _ => rfl) (silent_stop _)
    (.andThen (h.comp fun _ => rfl) fun _ => silent_done fun _ => rfl)

theorem silent_withSlot {body : Machine → Outcome α} (h : Silent body) :
    Silent fun m => m.withSlot body :=
  .ite (c := fun m => m.locks.slot) (fun _ => rfl) (silent_stop _)
    (.andThen (h.comp fun _ => rfl) fun _ => silent_done fun _ => rfl)

theorem silent_withKernel {op : Machine → Outcome α} (h : Silent op) :
    Silent fun m => m.withKernel op :=
  .ite (c := Machine.installed) (fun _ => rfl) (silent_withSlot h) h

theorem silent_tick : Silent tick := by
  intro m
  have hdevices : m.bare.kernel.devices = m.kernel.devices := rfl
  unfold tick
  rw [hdevices]
  cases m.kernel.devices.tick <;> rfl

theorem silent_dispatch (frame : Registers) : Silent fun m => m.dispatch frame := by
  rintro ⟨k, r, idle, activated, journal, ⟨slot, route, controller⟩, installed⟩
  cases controller <;> rfl

theorem silent_arrive (a : Arrival) : Silent fun m => m.arrive a := by
  cases a with
  | tick =>
    have hroute : Silent routeTick := silent_withRoute
      (.ite (c := Machine.installed) (fun _ => rfl) silent_tick (silent_done fun _ => rfl))
    exact .ite (c := Machine.installed) (fun _ => rfl) hroute silent_tick
  | interrupt vector =>
    have hdispatch : Silent fun m =>
        (m.dispatch (.ofVector vector)).andThen fun m _ => .done m () :=
      .andThen (silent_dispatch _) fun _ => silent_done fun _ => rfl
    have hroute : Silent fun m => m.interruptEntry (.ofVector vector) := silent_withRoute
      (.ite (c := Machine.installed) (fun _ => rfl) hdispatch (silent_done fun _ => rfl))
    exact .ite (c := Machine.installed) (fun _ => rfl) hroute hdispatch

theorem silent_arriveAll (as : List Arrival) : Silent fun m => m.arriveAll as := by
  induction as with
  | nil => exact silent_done fun _ => rfl
  | cons a rest ih => exact (silent_arrive a).andThen fun _ => ih

theorem bare_suspendCurrent (m : Machine) : m.suspendCurrent.bare = m.bare.suspendCurrent.bare := by
  have hcurrent : m.bare.kernel.current = m.kernel.current := rfl
  unfold suspendCurrent
  rw [hcurrent]
  cases m.kernel.current <;> rfl

theorem bare_giveCpu (m : Machine) (active : Option PhysAddr) (p : Process) (s : RoundRobin) :
    (m.giveCpu active p s).bare = (m.bare.giveCpu active p s).bare := by
  have hcurrent : m.bare.kernel.current = m.kernel.current := rfl
  unfold giveCpu
  simp only [hcurrent]
  split <;> rfl

theorem silent_selectNext (active : Option PhysAddr) (waits : List (List Arrival)) :
    Silent (selectNext active waits) := by
  -- Who is selected at a look depends on the kernel alone.
  have hready : ∀ (waits : List (List Arrival)) (m : Machine), m.settle.SomeReady →
      (selectNext active waits m).bare = (selectNext active waits m.bare).bare := by
    intro waits m hsome
    cases hs : m.settle.kernel.scheduler.select m.settle.kernel.processes with
    | none => exact absurd hsome (RoundRobin.select_eq_none_iff.1 hs)
    | some u =>
      rw [selectNext_of_ready hs, selectNext_of_ready (m := m.bare) hs]
      have hgive : (m.settle.giveCpu active u.1 u.2).bare =
          (m.bare.settle.giveCpu active u.1 u.2).bare :=
        (m.settle.bare_giveCpu ..).trans (m.bare.settle.bare_giveCpu ..).symm
      exact congrArg (fun n : Machine => Outcome.done { n with idle := waits } u.1.id) hgive
  induction waits with
  | nil =>
    intro m
    by_cases hsome : m.settle.SomeReady
    · exact hready [] m hsome
    · rw [selectNext_nil_of_none hsome, selectNext_nil_of_none (m := m.bare) hsome]
      rfl
  | cons wait waits ih =>
    intro m
    by_cases hsome : m.settle.SomeReady
    · exact hready (wait :: waits) m hsome
    · rw [selectNext_of_none hsome, selectNext_of_none (m := m.bare) hsome]
      have hwait : Silent fun m => m.settle.startWait.arriveAll wait :=
        (silent_arriveAll wait).comp fun _ => rfl
      exact (hwait.andThen fun _ => ih) m

theorem silent_schedule : Silent schedule := by
  intro m
  unfold schedule
  show Outcome.bare (if m.kernel.booted then _ else _) =
    Outcome.bare (if m.kernel.booted then _ else _)
  split
  · exact ((silent_selectNext _ m.idle).comp bare_suspendCurrent) m
  · rfl

/-- What a tick comes to once the clock has gone on. -/
def afterTick (m : Machine) : Outcome Bool :=
  match m.settle.kernel.current with
  | none => .done m.settle false
  | some _ => m.settle.accountTick

theorem timerInterrupt_eq (m : Machine) :
    m.timerInterrupt = m.tick.andThen fun n _ => n.afterTick := rfl

theorem silent_accountTick : Silent accountTick :=
  .ite (c := fun m => m.tickSlice.kernel.scheduler.shouldPreempt) (fun _ => rfl)
    ((silent_schedule.comp fun _ => rfl).andThen fun _ => silent_done fun _ => rfl)
    (silent_done fun _ => rfl)

theorem silent_afterTick : Silent afterTick := by
  intro m
  have hcurrent : m.bare.settle.kernel.current = m.settle.kernel.current := rfl
  unfold afterTick
  rw [hcurrent]
  cases m.settle.kernel.current with
  | none => rfl
  | some _ => exact silent_accountTick.comp (f := settle) (fun _ => rfl) m

theorem silent_timerInterrupt : Silent timerInterrupt :=
  silent_tick.andThen fun _ => silent_afterTick

/-! ### Deliveries in between -/

theorem settle_deliverEvents (m : Machine) : m.deliverEvents.settle = m.settle := rfl

/-- A tick does not touch the inbox. -/
theorem tick_deliverEvents (m : Machine) :
    (∃ n, m.tick = .done n () ∧ m.deliverEvents.tick = .done n.deliverEvents ()) ∨
      ∃ f, m.tick = .fault f m.journal ∧
        m.deliverEvents.tick = .fault f m.deliverEvents.journal := by
  obtain ⟨⟨config, processes, current, scheduler, frames, ⟨clock, inbox, vectors⟩, memory, booted⟩,
    frame, idle, activated, journal, locks, installed⟩ := m
  unfold tick Devices.tick Devices.advance
  cases clock with
  | none => exact .inl ⟨_, rfl, rfl⟩
  | some c =>
    show (∃ n, _) ∨ ∃ f, _
    dsimp only [deliverEvents, report, setKernel, Kernel.deliverEvents]
    cases c.advance 1 with
    | ok c' => exact .inl ⟨_, rfl, rfl⟩
    | error f => exact .inr ⟨f, rfl, rfl⟩

/-- Whether the events in the inbox are delivered before a tick or with it makes no difference. -/
theorem bare_timerInterrupt_deliverEvents (m : Machine) :
    m.deliverEvents.timerInterrupt.bare = m.timerInterrupt.bare := by
  rw [timerInterrupt_eq, timerInterrupt_eq]
  rcases m.tick_deliverEvents with ⟨n, hn, hd⟩ | ⟨f, hf, hd⟩
  · rw [hn, hd]
    show n.deliverEvents.afterTick.bare = n.afterTick.bare
    unfold afterTick
    rw [settle_deliverEvents]
  · rw [hf, hd]
    rfl

/-- The machine when some traps were announced, one after the other. -/
def announcedAll (m : Machine) (frames : List Registers) : Machine :=
  frames.foldl announced m

/-- The machine when some traps were announced, each of them delivered before the next. -/
def interruptedAll (m : Machine) (frames : List Registers) : Machine :=
  frames.foldl (fun m frame => (m.announced frame).deliverEvents) m

/-- The events of some traps. -/
def raisedBy (m : Machine) (frames : List Registers) : List (ProcessId × Event) :=
  frames.flatMap m.kernel.devices.vectors.raised

/-- The inbox has room for the events of some traps. -/
def HasRoomFor (m : Machine) (frames : List Registers) : Prop :=
  m.kernel.devices.inbox.pending.length + (m.raisedBy frames).length ≤
    m.kernel.devices.inbox.queue.capacity

/-- Announcing traps does nothing but to push their events into the inbox. -/
theorem announcedAll_eq (frames : List Registers) :
    ∀ m : Machine, m.announcedAll frames = { m.setDevices { m.kernel.devices with
      inbox := m.kernel.devices.inbox.pushAll (m.raisedBy frames) } with
        journal := (m.announcedAll frames).journal } := by
  induction frames with
  | nil => exact fun _ => rfl
  | cons frame rest ih =>
    intro m
    have hinbox : (m.announced frame).kernel.devices.inbox =
        m.kernel.devices.inbox.pushAll (m.kernel.devices.vectors.raised frame) :=
      Inbox.announceAll_eq ..
    have hraised : (m.announced frame).raisedBy rest = m.raisedBy rest := rfl
    have hrest := ih (m.announced frame)
    rw [hinbox, hraised, ← Inbox.pushAll_append] at hrest
    exact hrest

theorem bare_announcedAll (m : Machine) (frames : List Registers) :
    (m.announcedAll frames).bare = (m.setDevices { m.kernel.devices with
      inbox := m.kernel.devices.inbox.pushAll (m.raisedBy frames) }).bare := by
  rw [announcedAll_eq]
  rfl

theorem quiet_announcedAll (frames : List Registers) :
    ∀ m : Machine, m.Quiet (m.announcedAll frames) := by
  induction frames with
  | nil => exact Quiet.refl
  | cons frame rest ih =>
    exact fun m => ((m.quiet_setDevices _).trans (quiet_report _ _)).trans (ih (m.announced frame))

/-- Events that find room are delivered alike, whether or not those before them have been delivered
already. -/
theorem bare_deliverEvents_announcedAll {frames : List Registers} (h : m.HasRoomFor frames) :
    (m.deliverEvents.announcedAll frames).deliverEvents.bare =
      (m.announcedAll frames).deliverEvents.bare := by
  show (m.deliverEvents.announcedAll frames).bare.deliverEvents.bare =
    (m.announcedAll frames).bare.deliverEvents.bare
  have hempty : m.kernel.devices.inbox.clear.pending.length + (m.raisedBy frames).length ≤
      m.kernel.devices.inbox.clear.queue.capacity := by
    rw [show m.kernel.devices.inbox.clear.pending.length = 0 from rfl, Nat.zero_add]
    exact Nat.le_trans (Nat.le_add_left _ _) h
  have hinbox : m.deliverEvents.kernel.devices.inbox = m.kernel.devices.inbox.clear := rfl
  have hraised : m.deliverEvents.raisedBy frames = m.raisedBy frames := rfl
  rw [bare_announcedAll, bare_announcedAll, hinbox, hraised]
  unfold deliverEvents Kernel.deliverEvents setDevices setKernel report bare
  dsimp only
  rw [Inbox.pending_pushAll_of_room h, Inbox.clear_pushAll_of_room h,
    Inbox.pending_pushAll_of_room hempty, Inbox.clear_pushAll_of_room hempty,
    Registry.deliverAll_append m.kernel.devices.inbox.pending]
  rfl

theorem HasRoomFor.rest {frames : List Registers} (h : m.HasRoomFor (frame :: frames)) :
    (m.announced frame).HasRoomFor frames ∧
      (m.announced frame).deliverEvents.HasRoomFor frames := by
  unfold HasRoomFor raisedBy at h
  rw [List.flatMap_cons, List.length_append] at h
  have hinbox : (m.announced frame).kernel.devices.inbox =
      m.kernel.devices.inbox.pushAll (m.kernel.devices.vectors.raised frame) :=
    Inbox.announceAll_eq ..
  have hcapacity := Inbox.capacity_pushAll (m.kernel.devices.vectors.raised frame)
    m.kernel.devices.inbox
  have hfits : m.kernel.devices.inbox.pending.length +
      (m.kernel.devices.vectors.raised frame).length ≤ m.kernel.devices.inbox.queue.capacity := by
    omega
  have hpending := Inbox.pending_pushAll_of_room hfits
  have hfirst : (m.announced frame).HasRoomFor frames := by
    unfold HasRoomFor
    rw [hinbox, hcapacity, hpending, List.length_append]
    show _ + (m.raisedBy frames).length ≤ _
    unfold raisedBy
    omega
  exact ⟨hfirst, Nat.le_trans (Nat.add_le_add_right (Nat.zero_le _) _) hfirst⟩

/-- Traps that are delivered one by one come to what they come to when they are delivered
together. -/
theorem bare_interruptedAll {frames : List Registers} :
    ∀ {m : Machine}, m.HasRoomFor frames → (m.interruptedAll frames).deliverEvents.bare =
      (m.announcedAll frames).deliverEvents.bare := by
  induction frames with
  | nil => exact fun _ => rfl
  | cons frame rest ih =>
    intro m h
    obtain ⟨hfirst, hdelivered⟩ := h.rest
    calc (m.interruptedAll (frame :: rest)).deliverEvents.bare
      _ = ((m.announced frame).deliverEvents.announcedAll rest).deliverEvents.bare :=
        ih hdelivered
      _ = ((m.announced frame).announcedAll rest).deliverEvents.bare :=
        bare_deliverEvents_announcedAll hfirst

/-! ### The two ways -/

/-- Some traps come in through their lines. -/
def enterAll (m : Machine) : List Registers → Outcome Unit
  | [] => .done m ()
  | frame :: rest => (m.interruptEntry frame).andThen fun m _ => m.enterAll rest

/-- The kernel handles some interrupts. -/
def interruptAll (m : Machine) : List Registers → Outcome Unit
  | [] => .done m ()
  | frame :: rest =>
    (m.withKernel fun m => m.interrupt frame).andThen fun m _ => m.interruptAll rest

/-- Some traps come in through their lines, and a tick follows. -/
def deferred (m : Machine) (frames : List Registers) : Outcome Bool :=
  (m.enterAll frames).andThen fun m _ => m.withKernel timerInterrupt

/-- The kernel handles some interrupts, and a tick follows. -/
def immediate (m : Machine) (frames : List Registers) : Outcome Bool :=
  (m.interruptAll frames).andThen fun m _ => m.withKernel timerInterrupt

theorem enterAll_of_free {frames : List Registers} :
    ∀ {m : Machine}, m.locks = .free → m.installed = true →
      m.enterAll frames = .done (m.announcedAll frames) () := by
  induction frames with
  | nil => exact fun _ _ => rfl
  | cons frame rest ih =>
    intro m hl hi
    have hroute : m.locks.route = false ∧ m.locks.controller = false := by
      rw [hl]
      exact ⟨rfl, rfl⟩
    rw [enterAll, interruptEntry_of_free hroute.1 hroute.2 hi]
    exact ih hl hi

theorem interruptAll_of_free {frames : List Registers} :
    ∀ {m : Machine}, m.locks = .free →
      m.interruptAll frames = .done (m.interruptedAll frames) () := by
  induction frames with
  | nil => exact fun _ => rfl
  | cons frame rest ih =>
    intro m hl
    rw [interruptAll, withKernel_interrupt hl]
    exact ih hl

/-- What is delivered before a tick is delivered by the tick. -/
theorem bare_tick_deliverEvents (m : Machine) :
    (m.deliverEvents.withKernel timerInterrupt).bare = (m.withKernel timerInterrupt).bare := by
  unfold withKernel withSlot
  show Outcome.bare (if m.installed then if m.locks.slot then _ else _ else _) =
    Outcome.bare (if m.installed then if m.locks.slot then _ else _ else _)
  split
  · split
    · rfl
    · let e : Machine := { m with locks := { m.locks with slot := true } }
      let give (m : Machine) (b : Bool) : Outcome Bool :=
        .done { m with locks := { m.locks with slot := false } } b
      show (e.deliverEvents.timerInterrupt.andThen give).bare = (e.timerInterrupt.andThen give).bare
      have hgive : ∀ b, Silent fun m => give m b := fun _ => silent_done fun _ => rfl
      rw [bare_andThen _ hgive, bare_timerInterrupt_deliverEvents, ← bare_andThen _ hgive]
  · exact m.bare_timerInterrupt_deliverEvents

/-- A tick that the clock can count returns: the process with the CPU is ready at once. -/
theorem tick_returns (hb : m.kernel.Bound)
    (hbooted : ∀ {id}, m.kernel.current = some id → m.kernel.booted = true)
    (hroom : Clock.HasRoom 1 m.kernel.devices.clock) : ∃ n b, m.timerInterrupt = .done n b := by
  obtain ⟨v, hv⟩ := (m.tick_cases.resolve_right fun h => h.1 hroom).2
  have hq : m.Quiet v.settle := (quiet_tick hv).trans v.quiet_settle
  rw [timerInterrupt_eq, hv]
  show ∃ n b, v.afterTick = .done n b
  unfold afterTick
  cases hc : v.settle.kernel.current with
  | none => exact ⟨_, _, rfl⟩
  | some id =>
    simp only
    unfold accountTick
    simp only
    split
    · have hsettled := bound_of_quiet hq hb
      obtain ⟨p, hp, _, hrun⟩ := hsettled.currentProcess? hc
      have hagain : v.settle.tickSlice.kernel.booted = true := by
        show v.settle.kernel.booted = true
        rw [hq.booted]
        exact hbooted (hq.current.symm.trans hc)
      obtain ⟨n, j, hn⟩ := (schedule_returns_iff hagain).2
        ⟨0, readyAfter_zero (m := v.settle.tickSlice) hp hrun⟩
      rw [hn]
      exact ⟨_, _, rfl⟩
    · exact ⟨_, _, rfl⟩

/-- As long as the inbox has room for all their events, it makes no difference to the machine, to
the registers with which it returns and to what the tick says whether interrupts come in through
their lines before the tick or are handled by the kernel one after the other, and only the end of
the clock keeps the tick from returning. -/
theorem deferred_eq_immediate (hm : Reachable m) (hi : m.installed = true)
    (frames : List Registers)
    (hroom : m.kernel.devices.inbox.pending.length + (m.raisedBy frames).length ≤
      m.kernel.config.inboxCapacity.toNat) :
    (m.deferred frames).bare = (m.immediate frames).bare ∧
    (Clock.HasRoom 1 m.kernel.devices.clock → ∃ n b, m.deferred frames = .done n b) := by
  have hl := locks_of_reachable hm
  have hdeferred : m.deferred frames = (m.announcedAll frames).withKernel timerInterrupt := by
    unfold deferred
    rw [enterAll_of_free hl hi]
    rfl
  have himmediate : m.immediate frames = (m.interruptedAll frames).withKernel timerInterrupt := by
    unfold immediate
    rw [interruptAll_of_free hl]
    rfl
  rw [← room_of_reachable hm] at hroom
  refine ⟨?_, fun hclock => ?_⟩
  · have hsilent := silent_withKernel silent_timerInterrupt
    rw [hdeferred, himmediate, ← bare_tick_deliverEvents, hsilent,
      ← bare_interruptedAll hroom, ← hsilent, bare_tick_deliverEvents]
  · have hq := quiet_announcedAll frames m
    have hlocks : (m.announcedAll frames).locks = .free := by
      rw [announcedAll_eq]
      exact hl
    have hsame : (m.announcedAll frames).kernel.devices.clock = m.kernel.devices.clock := by
      rw [announcedAll_eq]
      rfl
    obtain ⟨locks, give, hcall⟩ := withKernel_of_free hlocks timerInterrupt
    have hbound := bound_of_quiet hq (bound_of_reachable hm)
    obtain ⟨n, b, hn⟩ := tick_returns (m := { m.announcedAll frames with locks }) hbound
      (fun hc => hq.booted.trans (booted_of_reachable hm (hq.current.symm.trans hc)))
      (hsame ▸ hclock)
    rw [hdeferred, hcall, hn]
    exact ⟨_, b, rfl⟩

/-- Two processes watch line 1 and the second one line 2 as well, the kernel is installed, and the
second process sleeps. -/
def watchedLines : List Action :=
  .boot trialEntry :: calls 0 .spawn 0x2000 ++ calls 0 .watchLine 1 ++ calls 2 .watchLine 1 ++
    calls 2 .watchLine 2 ++ calls 0 .yieldCpu 0 ++ calls 0 .enterSleep 0 ++ [.install]

/-- Three traps on these lines, two events of the first and the third: the sleeper is woken by the
first one and the other ones leave it pending wakeups, be it before the tick or with it. -/
theorem deferred_eq_immediate_watched : ∃ m n b, trial watchedLines = .done m () ∧
    m.deferred [.ofVector 33, .ofVector 34, .ofVector 33] = .done n b ∧
    (m.immediate [.ofVector 33, .ofVector 34, .ofVector 33]).bare = .done n.bare b ∧
    ∃ p, n.kernel.processes.get? 2 = some p ∧ p.events.items = [.interrupt 1, .interrupt 2,
      .interrupt 1] ∧ p.wakeups = 2 := by
  obtain ⟨m, hm, hcheck⟩ := Outcome.exists_of_endsIn (trial watchedLines)
    (fun m => m.installed && decide (m.kernel.devices.inbox.pending.length +
        (m.raisedBy [.ofVector 33, .ofVector 34, .ofVector 33]).length ≤
          m.kernel.config.inboxCapacity.toNat) &&
      (forget (m.deferred [.ofVector 33, .ofVector 34, .ofVector 33])).endsIn fun n =>
        (n.kernel.processes.get? 2).any fun p =>
          p.events.items == [.interrupt 1, .interrupt 2, .interrupt 1] && p.wakeups == 2)
    (by decide +kernel)
  simp only [Bool.and_eq_true, decide_eq_true_eq] at hcheck
  obtain ⟨⟨hi, hroom⟩, hends⟩ := hcheck
  obtain ⟨n, hn, hafter⟩ := Outcome.exists_of_endsIn _ _ hends
  simp only [Option.any_eq_true, Bool.and_eq_true, beq_iff_eq] at hafter
  obtain ⟨p, hp, hevents, hwakeups⟩ := hafter
  obtain ⟨b, hdeferred⟩ := forget_done hn
  have hagree := (deferred_eq_immediate (.trial hm) hi _ hroom).1
  rw [hdeferred] at hagree
  exact ⟨m, n, b, hm, hdeferred, hagree.symm, p, hp, hevents, hwakeups⟩

end Machine
end Nucleus
