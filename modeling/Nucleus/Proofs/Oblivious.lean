import Nucleus.Proofs.Idling

/-!
# Nucleus.Proofs.Oblivious

Operations that have nothing to do with the memory of processes. On a machine with any other memory
such an operation comes to the same end, and leaves the memory as it found it. All that a request
can set off is of this kind, but for reading a deadline and for writing a record or the time. So it
is shown once for the parts that operations are put together from, and then for one operation after
the other.

* `Machine.remember`, `Machine.Oblivious`: other memory, and not to look at it.
* `oblivious_schedule`: a scheduling decision, with all that arrives while it waits.
* `oblivious_spawn`, `oblivious_kill` and the others: the operations of requests.
-/

namespace Nucleus

variable {α β : Type}

/-- A machine with other memory. -/
def Machine.remember (m : Machine) (memory : UserMemory) : Machine :=
  m.setKernel { m.kernel with memory }

/-- An outcome with other memory. -/
def Outcome.remember (o : Outcome α) (memory : UserMemory) : Outcome α :=
  match o with
  | .done m a => .done (m.remember memory) a
  | .fault f j => .fault f j

namespace Machine

variable {memory : UserMemory} {caller target : ProcessId}

/-- An operation neither looks at memory nor changes it. -/
def Oblivious (op : Machine → Outcome α) : Prop :=
  ∀ m memory, op (m.remember memory) = (op m).remember memory

/-! ### Parts of operations -/

theorem oblivious_done {f : Machine → Machine} {a : α}
    (h : ∀ m memory, f (m.remember memory) = (f m).remember memory) :
    Oblivious fun m => .done (f m) a :=
  fun m memory => congrArg (Outcome.done · a) (h m memory)

theorem oblivious_stop (f : Fault) : Oblivious fun m => (m.stop f : Outcome α) :=
  fun _ _ => rfl

theorem remember_andThen (o : Outcome α) {next : Machine → α → Outcome β}
    (h : ∀ a, Oblivious fun m => next m a) :
    (o.remember memory).andThen next = (o.andThen next).remember memory := by
  cases o with
  | done m a => exact h a m memory
  | fault f j => rfl

theorem Oblivious.andThen {op : Machine → Outcome α} {next : Machine → α → Outcome β}
    (h : Oblivious op) (h' : ∀ a, Oblivious fun m => next m a) :
    Oblivious fun m => (op m).andThen next := by
  intro m memory
  simp only
  rw [h m memory, remember_andThen _ h']

theorem Oblivious.ite {c : Machine → Bool} {op op' : Machine → Outcome α}
    (hc : ∀ m memory, c (m.remember memory) = c m) (h : Oblivious op) (h' : Oblivious op') :
    Oblivious fun m => if c m then op m else op' m := by
  intro m memory
  simp only [hc]
  split
  · exact h m memory
  · exact h' m memory

/-- What comes before an operation may change anything but memory. -/
theorem Oblivious.comp {op : Machine → Outcome α} (h : Oblivious op) {f : Machine → Machine}
    (hf : ∀ m memory, f (m.remember memory) = (f m).remember memory) :
    Oblivious fun m => op (f m) := by
  intro m memory
  simp only [hf]
  exact h (f m) memory

theorem oblivious_withController {body : Machine → Machine × α}
    (h : ∀ m memory, body (m.remember memory) = ((body m).1.remember memory, (body m).2)) :
    Oblivious fun m => m.withController body := by
  refine .ite (c := fun m => m.locks.controller) (fun _ _ => rfl) (oblivious_stop _) ?_
  intro m memory
  have hbody := h { m with locks := { m.locks with controller := true } } memory
  exact congrArg (fun r : Machine × α =>
    Outcome.done { r.1 with locks := { r.1.locks with controller := false } } r.2) hbody

theorem oblivious_withRoute {body : Machine → Outcome α} (h : Oblivious body) :
    Oblivious fun m => m.withRoute body :=
  .ite (c := fun m => m.locks.route) (fun _ _ => rfl) (oblivious_stop _)
    (.andThen (h.comp fun _ _ => rfl) fun _ => oblivious_done fun _ _ => rfl)

theorem oblivious_withCurrent {next : Machine → Process → Outcome α}
    (h : ∀ p, Oblivious fun m => next m p) : Oblivious fun m => m.withCurrent (next m) := by
  intro m memory
  have hp : (m.remember memory).kernel.currentProcess? = m.kernel.currentProcess? := rfl
  simp only [withCurrent, hp]
  cases m.kernel.currentProcess? with
  | none => rfl
  | some p => exact h p m memory

/-- Goes on with the time, if there is a clock. -/
theorem oblivious_now {none' : Machine → Outcome α} {some' : Machine → Instant → Outcome α}
    (h : Oblivious none') (h' : ∀ now, Oblivious fun m => some' m now) :
    Oblivious fun m => match m.kernel.now? with
      | none => none' m
      | some now => some' m now := by
  intro m memory
  have hnow : (m.remember memory).kernel.now? = m.kernel.now? := rfl
  simp only [hnow]
  cases m.kernel.now? with
  | none => exact h m memory
  | some now => exact h' now m memory

/-! ### What arrives, and decisions -/

theorem oblivious_tick : Oblivious tick := by
  intro m memory
  have htick : (m.remember memory).kernel.devices.tick = m.kernel.devices.tick := rfl
  unfold tick
  rw [htick]
  cases m.kernel.devices.tick <;> rfl

theorem oblivious_dispatch (frame : Registers) : Oblivious fun m => m.dispatch frame :=
  oblivious_withController fun _ _ => rfl

theorem oblivious_arrive (a : Arrival) : Oblivious fun m => m.arrive a := by
  cases a with
  | tick =>
    have hroute : Oblivious routeTick := oblivious_withRoute
      (.ite (c := Machine.installed) (fun _ _ => rfl) oblivious_tick
        (oblivious_done fun _ _ => rfl))
    exact .ite (c := Machine.installed) (fun _ _ => rfl) hroute oblivious_tick
  | interrupt vector =>
    have hdispatch : Oblivious fun m =>
        (m.dispatch (.ofVector vector)).andThen fun m _ => .done m () :=
      .andThen (oblivious_dispatch _) fun _ => oblivious_done fun _ _ => rfl
    have hroute : Oblivious fun m => m.interruptEntry (.ofVector vector) := oblivious_withRoute
      (.ite (c := Machine.installed) (fun _ _ => rfl) hdispatch (oblivious_done fun _ _ => rfl))
    exact .ite (c := Machine.installed) (fun _ _ => rfl) hroute hdispatch

theorem oblivious_arriveAll (as : List Arrival) : Oblivious fun m => m.arriveAll as := by
  induction as with
  | nil => exact oblivious_done fun _ _ => rfl
  | cons a rest ih => exact (oblivious_arrive a).andThen fun _ => ih

theorem suspendCurrent_remember (m : Machine) (memory : UserMemory) :
    (m.remember memory).suspendCurrent = m.suspendCurrent.remember memory := by
  have hcurrent : (m.remember memory).kernel.current = m.kernel.current := rfl
  unfold suspendCurrent
  rw [hcurrent]
  cases m.kernel.current <;> rfl

theorem settle_remember (m : Machine) (memory : UserMemory) :
    (m.remember memory).settle = m.settle.remember memory := by
  have hnow : (m.remember memory).deliverEvents.kernel.now? = m.deliverEvents.kernel.now? := rfl
  unfold settle wakeExpired Kernel.wakeExpired
  rw [hnow]
  cases m.deliverEvents.kernel.now? <;> rfl

theorem giveCpu_remember (m : Machine) (memory : UserMemory) (active : Option PhysAddr)
    (p : Process) (s : RoundRobin) :
    (m.remember memory).giveCpu active p s = (m.giveCpu active p s).remember memory := by
  have hcurrent : (m.remember memory).kernel.current = m.kernel.current := rfl
  unfold giveCpu
  simp only [hcurrent]
  split <;> rfl

theorem oblivious_selectNext (active : Option PhysAddr) (waits : List (List Arrival)) :
    Oblivious (selectNext active waits) := by
  -- Settling gives the same table on both sides, so the same process is ready.
  have hsome : ∀ (m : Machine) (memory : UserMemory),
      (m.remember memory).settle.SomeReady ↔ m.settle.SomeReady := by
    intro m memory
    rw [settle_remember]
    rfl
  have hready : ∀ (waits : List (List Arrival)) (m : Machine) (memory : UserMemory),
      m.settle.SomeReady → selectNext active waits (m.remember memory) =
        (selectNext active waits m).remember memory := by
    intro waits m memory h
    cases hs : m.settle.kernel.scheduler.select m.settle.kernel.processes with
    | none => exact absurd h (RoundRobin.select_eq_none_iff.1 hs)
    | some u =>
      have hs' : (m.remember memory).settle.kernel.scheduler.select
          (m.remember memory).settle.kernel.processes = some u := by
        rw [settle_remember]
        exact hs
      rw [selectNext_of_ready hs, selectNext_of_ready hs', settle_remember, giveCpu_remember]
      rfl
  induction waits with
  | nil =>
    intro m memory
    by_cases h : m.settle.SomeReady
    · exact hready [] m memory h
    · rw [selectNext_nil_of_none h, selectNext_nil_of_none (mt (hsome m memory).1 h),
        settle_remember]
      rfl
  | cons wait waits ih =>
    intro m memory
    by_cases h : m.settle.SomeReady
    · exact hready (wait :: waits) m memory h
    · have hwait : Oblivious fun m => m.settle.startWait.arriveAll wait :=
        (oblivious_arriveAll wait).comp fun m memory => by rw [settle_remember]; rfl
      rw [selectNext_of_none h, selectNext_of_none (mt (hsome m memory).1 h)]
      exact (hwait.andThen fun _ => ih) m memory

theorem oblivious_schedule : Oblivious schedule := by
  intro m memory
  have hbooted : (m.remember memory).kernel.booted = m.kernel.booted := rfl
  unfold schedule
  rw [hbooted, suspendCurrent_remember]
  split
  · exact oblivious_selectNext _ m.idle _ memory
  · rfl

/-! ### Operations of requests -/

theorem oblivious_reply (r : Reply) : Oblivious fun m => m.reply r :=
  oblivious_done fun _ _ => rfl

theorem oblivious_succeed : Oblivious succeed :=
  oblivious_reply _

theorem oblivious_fail (e : CallError) : Oblivious fun m => m.fail e :=
  oblivious_reply _

/-- A scheduling decision that a request ends with. -/
theorem oblivious_schedule_andThen (c : Completion) {f : Machine → Machine}
    (hf : ∀ m memory, f (m.remember memory) = (f m).remember memory) :
    Oblivious fun m => (f m).schedule.andThen fun m _ => .done m c :=
  .andThen (oblivious_schedule.comp hf) fun _ => oblivious_done fun _ _ => rfl

theorem create_remember (m : Machine) (memory : UserMemory) (entry : VirtAddr) (map : StackMap)
    (privileged : Bool) :
    (m.remember memory).create entry map privileged =
      (m.create entry map privileged).map fun r => (r.1, r.2.remember memory) := by
  have hid : (m.remember memory).kernel.nextId? = m.kernel.nextId? := rfl
  have hframes : (m.remember memory).kernel.frames = m.kernel.frames := rfl
  unfold create Kernel.create
  rw [hid]
  cases m.kernel.nextId? with
  | none => rfl
  | some id =>
    simp only [hframes]
    cases AddressSpace.allocate m.kernel.frames map id <;> rfl

theorem oblivious_spawn (entry : VirtAddr) : Oblivious fun m => m.spawn caller entry := by
  intro m memory
  have hmap : (m.remember memory).kernel.config.stackMap = m.kernel.config.stackMap := rfl
  simp only [spawn, create_remember, hmap]
  cases m.create entry m.kernel.config.stackMap false <;> rfl

theorem remove_remember (m : Machine) (memory : UserMemory) (id : ProcessId) (status : Word) :
    (m.remember memory).remove id status = (m.remove id status).map (·.remember memory) := by
  have hget : (m.remember memory).kernel.processes.get? id = m.kernel.processes.get? id := rfl
  unfold remove Kernel.remove
  rw [hget]
  cases m.kernel.processes.get? id <;> rfl

theorem unhook_remember (m : Machine) (memory : UserMemory) (owner : ProcessId) :
    (m.remember memory).unhook owner =
      ((m.unhook owner).1.remember memory, (m.unhook owner).2) := by
  have hvectors : (m.remember memory).kernel.devices.vectors = m.kernel.devices.vectors := rfl
  unfold unhook
  simp only [hvectors]
  split <;> rfl

theorem oblivious_kill (status : Word) : Oblivious fun m => m.kill target status := by
  intro m memory
  simp only [kill, remove_remember]
  cases m.remove target status with
  | error e => rfl
  | ok w =>
    have hdrop : Oblivious fun m : Machine => m.withController fun m => m.unhook target :=
      oblivious_withController fun m memory => m.unhook_remember memory target
    have hdecide := oblivious_schedule.andThen fun _ => oblivious_succeed
    exact (hdrop.andThen fun _ => hdecide) w memory

theorem oblivious_replyOfLine (r : Except LineError Unit) : Oblivious fun m => m.replyOfLine r := by
  cases r with
  | error e => exact oblivious_fail e.toCallError
  | ok u => exact oblivious_succeed

theorem oblivious_hookLine (line : Word) : Oblivious fun m => m.hookLine target line :=
  oblivious_withController fun m memory => by
    have hvectors : (m.remember memory).kernel.devices.vectors = m.kernel.devices.vectors := rfl
    rw [hvectors]
    cases m.kernel.devices.vectors.hook line target <;> rfl

theorem oblivious_setLine (line : Word) (on : Bool) : Oblivious fun m => m.setLine line on :=
  oblivious_withController fun m memory => by
    have hvectors : (m.remember memory).kernel.devices.vectors = m.kernel.devices.vectors := rfl
    rw [hvectors]
    cases m.kernel.devices.vectors.setEnabled line on <;> rfl

theorem oblivious_resume : Oblivious fun m => m.resume target := by
  intro m memory
  have hget : (m.remember memory).kernel.processes.get? target =
    m.kernel.processes.get? target := rfl
  simp only [resume, hget]
  cases m.kernel.processes.get? target <;> rfl

theorem oblivious_waitProcess : Oblivious fun m => m.waitProcess caller target := by
  unfold waitProcess
  by_cases hself : caller = target
  · simp only [if_pos hself]
    exact oblivious_fail _
  · simp only [if_neg hself]
    exact oblivious_withCurrent fun p => oblivious_schedule_andThen .deferred fun _ _ => rfl

theorem oblivious_waitTimer (deadline : Instant) : Oblivious fun m => m.waitTimer deadline :=
  oblivious_now (oblivious_fail _) fun now =>
    .ite (c := fun _ => deadline.reachedBy now) (fun _ _ => rfl) oblivious_succeed
      (oblivious_withCurrent fun _ =>
        oblivious_schedule_andThen (.ready (.value 0)) fun _ _ => rfl)

theorem oblivious_sleep (timer : SleepTimer) : Oblivious fun m => m.sleep timer :=
  oblivious_withCurrent fun p => by
    cases p.sleepOutcome with
    | alreadyWoken => exact oblivious_succeed.comp fun _ _ => rfl
    | willSleep => exact oblivious_schedule_andThen (.ready (.value 0)) fun _ _ => rfl

theorem oblivious_enterSleep (deadline : Option Instant) :
    Oblivious fun m => m.enterSleep deadline := by
  cases deadline with
  | none => exact oblivious_sleep .indefinite
  | some deadline =>
    exact oblivious_now (oblivious_fail _) fun now =>
      .ite (c := fun _ => deadline.reachedBy now) (fun _ _ => rfl) oblivious_succeed
        (oblivious_sleep _)

theorem oblivious_setStack (stack : VirtAddr) :
    Oblivious fun m => m.setStack caller target stack := by
  intro m memory
  simp only [setStack]
  split <;> rfl

end Machine
end Nucleus
