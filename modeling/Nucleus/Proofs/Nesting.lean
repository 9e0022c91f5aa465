import Nucleus.Proofs.Idling
import Nucleus.Proofs.Wakeups

/-!
# Nucleus.Proofs.Nesting

Traps inside a wait. While the installed kernel idles its slot is locked, and the traps for which it
waits come in past it, by the route and the vector table. They would wait for ever if one of these
were locked as well. Neither is: whatever the kernel was asked for, it has given both back before it
decides, and it idles nowhere else.

* `Machine.Call`, `Machine.call`: what the kernel can be asked for in its slot.
* `Machine.WaitsAt`, `schedule_waits`: the machines that a decision puts to wait.
* `Machine.Receptive`: traps may nest on a machine that waits, and do nothing but reach the devices.
* `Machine.Idles`, `idles_call`: a call makes one decision, or none, and nothing else in it idles.
* `Machine.Elapsed`, `clock_run`: every tick is counted once, wherever it came in.
* `nested_traps`: what that means for an installed kernel.
-/

namespace Nucleus

/-- The locks while the kernel is at work in its slot. -/
def Locks.busy : Locks :=
  ⟨true, false, false⟩

/-- A trap that does not ask for anything. -/
inductive Entry where
  | timer
  | line (frame : Registers)

/-- What reaches the devices with such a trap. -/
def Entry.arrival : Entry → Arrival
  | .timer => .tick
  | .line frame => .interrupt frame.vector

namespace Machine

variable {α β : Type} {m n t w : Machine} {j k k' : Nat} {wait : List Arrival}
  {waits : List (List Arrival)} {active : Option PhysAddr}

/-! ### Calls -/

/-- What the kernel can be asked for. -/
inductive Call where
  | boot (entry : VirtAddr)
  /-- A request, up to its completion. -/
  | serve (q : Request)
  /-- The request in the frame. -/
  | request
  | timer
  | interrupt (frame : Registers)
  | takeEvent (id : ProcessId)
  | schedule
  | shutdown

/-- The ticks of the clock that a call makes itself. -/
def Call.ticks : Call → Nat
  | .timer => 1
  | _ => 0

def call (m : Machine) : Call → Outcome Unit
  | .boot entry => forget (m.boot entry)
  | .serve q => forget (m.serve q)
  | .request => m.request
  | .timer => forget m.timerInterrupt
  | .interrupt frame => forget (m.interrupt frame)
  | .takeEvent id => .done (m.takeEvent id).1 ()
  | .schedule => forget m.schedule
  | .shutdown => forget m.shutdown

/-! ### Machines that wait -/

/-- The installed kernel is at work in its slot, and no other lock is held. -/
structure Busy (m : Machine) : Prop where
  locks : m.locks = .busy
  installed : m.installed = true

/-- The machines that the search for a ready process puts to wait, one after the other: nobody is
ready when it has looked. -/
inductive Waits : Nat → List (List Arrival) → Machine → Machine → Prop where
  | here {waits : List (List Arrival)} {m : Machine} :
      ¬ m.settle.SomeReady → Waits 0 waits m m.settle.startWait
  | later {j : Nat} {wait : List Arrival} {waits : List (List Arrival)} {m n w : Machine} :
      ¬ m.settle.SomeReady → m.settle.startWait.arriveAll wait = .done n () → Waits j waits n w →
      Waits (j + 1) (wait :: waits) m w

/-- The machine that a decision puts to wait after so many waits. -/
def WaitsAt (m : Machine) (j : Nat) (w : Machine) : Prop :=
  m.kernel.booted = true ∧ Waits j m.idle m.suspendCurrent w

/-- A trap comes in. -/
def enter (m : Machine) : Entry → Outcome Unit
  | .timer => m.timerEntry
  | .line frame => m.interruptEntry frame

/-- Some traps come in, one after the other. -/
def enters (m : Machine) : List Entry → Outcome Unit
  | [] => .done m ()
  | e :: rest => (m.enter e).andThen fun m _ => m.enters rest

/-- Traps may nest: with whatever registers they come, none of them waits for a lock, and all they
do is to reach the devices, unless the clock cannot count their ticks. What arrives in a wait is
such a trap. -/
structure Receptive (w : Machine) : Prop where
  busy : w.Busy
  arrives : ∀ a : Arrival, ∃ e : Entry, e.arrival = a ∧ w.arrive a = w.enter e
  nests : ∀ (frame : Registers) (es : List Entry),
    Clock.HasRoom ((es.map Entry.arrival).count .tick) w.kernel.devices.clock ∧
        (∃ n, ({ w with frame } : Machine).enters es = .done n () ∧
          ({ w with frame } : Machine).Heard (es.map Entry.arrival) n) ∨
      ¬ Clock.HasRoom ((es.map Entry.arrival).count .tick) w.kernel.devices.clock ∧
        ∃ journal, ({ w with frame } : Machine).enters es = .fault .overflow journal

theorem Busy.free (h : m.Busy) : m.locks.route = false ∧ m.locks.controller = false := by
  rw [h.locks]
  exact ⟨rfl, rfl⟩

/-- With its slot locked the kernel leaves a tick to the route. -/
theorem Busy.timerEntry (h : m.Busy) : m.timerEntry = m.arrive .tick := by
  unfold Machine.timerEntry arrive
  rw [h.locks, h.installed]
  rfl

theorem Busy.heard {as : List Arrival} (h : m.Busy) (hn : m.Heard as n) : n.Busy :=
  ⟨hn.locks.trans h.locks, hn.installed.trans h.installed⟩

theorem Busy.enter (h : m.Busy) (e : Entry) :
    Clock.HasRoom ([e.arrival].count .tick) m.kernel.devices.clock ∧
        (∃ n, m.enter e = .done n () ∧ m.Heard [e.arrival] n) ∨
      ¬ Clock.HasRoom ([e.arrival].count .tick) m.kernel.devices.clock ∧
        m.enter e = .fault .overflow m.journal := by
  obtain ⟨hroute, hcontroller⟩ := h.free
  cases e with
  | timer =>
    show _ ∧ (∃ n, m.timerEntry = .done n () ∧ _) ∨ _ ∧ m.timerEntry = _
    rw [h.timerEntry]
    exact (arrive_of_free hroute hcontroller .tick).imp_left
      fun ⟨hroom, n, hn⟩ => ⟨hroom, n, hn, heard_arrive hn⟩
  | line frame =>
    refine .inl ⟨Clock.hasRoom_zero _, m.announced frame,
      interruptEntry_of_free hroute hcontroller h.installed frame, ?_⟩
    refine ⟨rfl, rfl, ?_, .refl _⟩
    show Inbox.announceAll _ _ _ = _
    rw [Inbox.announceAll_eq, List.flatMap_singleton]
    rfl

theorem Busy.enters {es : List Entry} :
    ∀ {m : Machine}, m.Busy →
      Clock.HasRoom ((es.map Entry.arrival).count .tick) m.kernel.devices.clock ∧
          (∃ n, m.enters es = .done n () ∧ m.Heard (es.map Entry.arrival) n) ∨
        ¬ Clock.HasRoom ((es.map Entry.arrival).count .tick) m.kernel.devices.clock ∧
          ∃ journal, m.enters es = .fault .overflow journal := by
  induction es with
  | nil => exact fun _ => .inl ⟨Clock.hasRoom_zero _, _, rfl, .refl _⟩
  | cons e rest ih =>
    intro m h
    rw [List.map_cons, ← List.singleton_append, List.count_append]
    unfold Machine.enters
    rcases h.enter e with ⟨hroom, w, hw, hheard⟩ | ⟨hfull, hw⟩
    · rw [hw, ← hheard.clock.hasRoom_iff]
      refine (ih (h.heard hheard)).imp_left fun ⟨hroom, n, hn, hrest⟩ => ⟨hroom, n, hn, ?_⟩
      exact hheard.trans hrest
    · rw [hw]
      exact .inr ⟨fun hroom => hfull (hroom.of_le (Nat.le_add_right _ _)), m.journal, rfl⟩

theorem Busy.receptive (h : m.Busy) : m.Receptive := by
  refine ⟨h, fun a => ?_, fun frame es => ?_⟩
  · cases a with
    | tick => exact ⟨.timer, rfl, h.timerEntry.symm⟩
    | interrupt vector =>
      refine ⟨.line (.ofVector vector), rfl, ?_⟩
      unfold arrive
      simp only [h.installed, if_true]
      rfl
  · have hbusy : ({ m with frame } : Machine).Busy := ⟨h.locks, h.installed⟩
    exact hbusy.enters

theorem Busy.startWait (h : m.Busy) : m.settle.startWait.Busy :=
  ⟨h.locks, h.installed⟩

theorem waits_busy (h : Waits j waits m w) (hm : m.Busy) : w.Busy := by
  induction h with
  | here _ => exact hm.startWait
  | later _ hn _ ih => exact ih (hm.startWait.heard (heard_arriveAll hn))

theorem receptive_of_waitsAt (h : m.WaitsAt j w) (hm : m.Busy) : w.Receptive := by
  refine (waits_busy h.2 ?_).receptive
  rw [suspendCurrent_eq]
  exact ⟨hm.locks, hm.installed⟩

/-! ### The waits of a decision -/

/-- What comes of a wait: of what arrives in it, and of the decision that goes on then. -/
def waitOut (w : Machine) (active : Option PhysAddr) : List (List Arrival) → Outcome ProcessId
  | [] => w.stop .idleForever
  | wait :: rest => (w.arriveAll wait).andThen fun n _ => selectNext active rest n

theorem selectNext_of_waits (h : Waits j waits m w) :
    selectNext active waits m = w.waitOut active (waits.drop j) := by
  induction h with
  | @here waits m hnone =>
    cases waits with
    | nil => exact selectNext_nil_of_none hnone
    | cons wait rest => exact selectNext_of_none hnone
  | later hnone hn _ ih =>
    rw [selectNext_of_none hnone, hn]
    exact ih

theorem not_waits (h : m.settle.SomeReady) : ¬ Waits j waits m w := by
  rintro (hnone | ⟨hnone, _, _⟩)
  · exact hnone h
  · exact hnone h

/-- There are as many waits as were taken until some process was ready. -/
theorem exists_waits_iff (hk : k ≤ waits.length) (hw : m.looked (waits.take k) = .done w ())
    (hready : w.SomeReady)
    (hearlier : ∀ i < k, ∃ v, m.looked (waits.take i) = .done v () ∧ ¬ v.SomeReady) :
    (∃ v, Waits j waits m v) ↔ j < k := by
  induction k generalizing j m waits with
  | zero =>
    cases hw
    exact ⟨fun ⟨_, hv⟩ => absurd hv (not_waits hready), fun h => absurd h (Nat.not_lt_zero _)⟩
  | succ k ih =>
    have hnone : ¬ m.settle.SomeReady := by
      obtain ⟨v, hv, hnone⟩ := hearlier 0 (Nat.zero_lt_succ k)
      cases hv
      exact hnone
    cases waits with
    | nil => exact absurd hk (Nat.not_succ_le_zero k)
    | cons wait waits =>
      obtain ⟨n, _, hn, hrest⟩ := Outcome.andThen_eq_done_iff.1 hw
      cases j with
      | zero => exact ⟨fun _ => Nat.zero_lt_succ k, fun _ => ⟨_, .here hnone⟩⟩
      | succ j =>
        have hafter : ∀ i < k, ∃ v, n.looked (waits.take i) = .done v () ∧ ¬ v.SomeReady := by
          intro i hi
          rw [← looked_cons hn]
          exact hearlier (i + 1) (Nat.succ_lt_succ hi)
        rw [Nat.succ_lt_succ_iff, ← ih (Nat.le_of_succ_le_succ hk) hrest hafter]
        constructor
        · rintro ⟨v, ⟨⟩ | ⟨_, hn', hv⟩⟩
          cases hn.symm.trans hn'
          exact ⟨v, hv⟩
        · rintro ⟨v, hv⟩
          exact ⟨v, .later hnone hn hv⟩

/-- A decision that puts a machine to wait is what comes of the wait, and a decision that returns
has put one to wait as often as it counts. -/
theorem schedule_waits (m : Machine) :
    (∀ j w, m.WaitsAt j w → m.schedule =
      w.waitOut (m.kernel.currentProcess?.map fun p => p.space.pageDirectory) (m.idle.drop j)) ∧
    ∀ n id, m.schedule = .done n id → ∀ j, (∃ w, m.WaitsAt j w) ↔
      m.kernel.scheduler.idleWaits + j < n.kernel.scheduler.idleWaits := by
  refine ⟨?_, fun n id h j => ?_⟩
  · rintro j w ⟨hb, hw⟩
    unfold schedule
    rw [if_pos hb]
    exact selectNext_of_waits hw
  · obtain ⟨k, w, p, _, he⟩ := schedule_ends h
    rw [he.idleWaits, Nat.add_lt_add_iff_left,
      ← exists_waits_iff he.bounded he.looked ⟨p.id, p, he.found, he.ready⟩ he.earlier]
    exact ⟨fun ⟨v, _, hv⟩ => ⟨v, hv⟩, fun ⟨v, hv⟩ => ⟨v, he.booted, hv⟩⟩

/-! ### Operations that idle in one decision at most -/

/-- No wait, and so many ticks. -/
structure Steady (ticks : Nat) (m n : Machine) : Prop where
  locks : n.locks = m.locks
  installed : n.installed = m.installed
  idle : n.idle = m.idle
  idleWaits : n.kernel.scheduler.idleWaits = m.kernel.scheduler.idleWaits
  clock : Clock.Passed ticks m.kernel.devices.clock n.kernel.devices.clock

theorem Steady.trans {o : Machine} (h : Steady k m n) (h' : Steady k' n o) :
    Steady (k + k') m o :=
  ⟨h'.locks.trans h.locks, h'.installed.trans h.installed, h'.idle.trans h.idle,
    h'.idleWaits.trans h.idleWaits, h.clock.trans h'.clock⟩

theorem Steady.busy (h : Steady k m n) (hm : m.Busy) : n.Busy :=
  ⟨h.locks.trans hm.locks, h.installed.trans hm.installed⟩

theorem Steady.refl (m : Machine) : Steady 0 m m :=
  ⟨rfl, rfl, rfl, rfl, .refl _⟩

/-- What is left to do cannot fail, and does not idle. -/
def Finishes (next : Machine → α → Outcome β) : Prop :=
  ∀ n a, ∃ n' b, next n a = .done n' b ∧ Steady 0 n n'

/-- How an operation idles: it does not, whether or not it comes to its end, or it does so in one
decision, wherever that waits traps may nest, and the rest of the operation does not idle. So many
ticks are its own. -/
inductive Idles (m : Machine) (ticks : Nat) : Outcome α → Prop where
  | never {n : Machine} {a : α} : Steady ticks m n → Idles m ticks (.done n a)
  /-- There is nobody to ask for anything. -/
  | unbound {journal : Journal} : Idles m ticks (.fault .noProcessBound journal)
  /-- The clock cannot count the ticks of the operation itself. -/
  | overruns {journal : Journal} :
      ¬ Clock.HasRoom ticks m.kernel.devices.clock → Idles m ticks (.fault .overflow journal)
  | decides {t : Machine} {next : Machine → ProcessId → Outcome α} :
      Steady ticks m t → (∀ j w, t.WaitsAt j w → w.Receptive) → Finishes next →
      Idles m ticks (t.schedule.andThen next)

/-- What comes after an operation does not idle. -/
theorem Idles.andThen {o : Outcome α} {next : Machine → α → Outcome β} (h : m.Idles k o)
    (hnext : Finishes next) : m.Idles k (o.andThen next) := by
  cases h with
  | @never n a hn =>
    obtain ⟨n', b, hdone, hn'⟩ := hnext n a
    show m.Idles k (next n a)
    rw [hdone]
    exact .never (hn.trans hn')
  | unbound => exact .unbound
  | overruns hfull => exact .overruns hfull
  | @decides t first ht hopen hfirst =>
    have hassoc : (t.schedule.andThen first).andThen next =
        t.schedule.andThen fun n id => (first n id).andThen next := by
      cases t.schedule <;> rfl
    rw [hassoc]
    refine .decides ht hopen fun n id => ?_
    obtain ⟨n', a, hdone, hn⟩ := hfirst n id
    obtain ⟨n'', b, hdone', hn'⟩ := hnext n' a
    rw [hdone]
    exact ⟨n'', b, hdone', hn.trans hn'⟩

/-- What comes before an operation does not idle. -/
theorem Idles.after {o : Outcome α} (h : n.Idles k' o) (hn : Steady k m n) :
    m.Idles (k + k') o := by
  cases h with
  | never h => exact .never (hn.trans h)
  | unbound => exact .unbound
  | overruns hfull => exact .overruns fun hroom => hfull (hn.clock.hasRoom_iff.2 hroom)
  | decides ht hopen hnext => exact .decides (hn.trans ht) hopen hnext

theorem Idles.after_zero {o : Outcome α} (h : n.Idles k o) (hn : Steady 0 m n) : m.Idles k o :=
  Nat.zero_add k ▸ h.after hn

theorem idles_schedule (hm : m.Busy) : m.Idles 0 m.schedule := by
  have hdone : m.schedule = m.schedule.andThen fun n id => .done n id := by
    cases m.schedule <;> rfl
  rw [hdone]
  exact .decides (.refl m) (fun j w hw => receptive_of_waitsAt hw hm)
    fun n id => ⟨n, id, rfl, .refl n⟩

/-- A decision after something that does not idle, and before something that does not. -/
theorem idles_scheduled (hm : m.Busy) (hn : Steady 0 m n) {next : Machine → ProcessId → Outcome α}
    (hnext : Finishes next) : m.Idles 0 (n.schedule.andThen next) :=
  ((idles_schedule (hn.busy hm)).andThen hnext).after_zero hn

/-! ### Each call -/

variable {caller target : ProcessId}

theorem Heard.steady {as : List Arrival} (h : m.Heard as n) : Steady (as.count .tick) m n :=
  ⟨h.locks, h.installed, h.idle, congrArg RoundRobin.idleWaits h.scheduler, h.clock⟩

/-- Neither the clock nor the count of waits is touched. -/
theorem steady_setKernel {kernel : Kernel}
    (hw : kernel.scheduler.idleWaits = m.kernel.scheduler.idleWaits)
    (hc : kernel.devices.clock = m.kernel.devices.clock) : Steady 0 m (m.setKernel kernel) := by
  refine ⟨rfl, rfl, rfl, hw, ?_⟩
  show Clock.Passed 0 m.kernel.devices.clock kernel.devices.clock
  rw [hc]
  exact .refl _

theorem steady_note (m : Machine) (n : Note) : Steady 0 m (m.note n) :=
  ⟨rfl, rfl, rfl, rfl, .refl _⟩

theorem steady_setVectors (m : Machine) (vectors : VectorTable) :
    Steady 0 m (m.setVectors vectors) :=
  ⟨rfl, rfl, rfl, rfl, .refl _⟩

theorem steady_modifyProcess (m : Machine) (id : ProcessId) (f : Process → Process)
    (hf : ∀ p, (f p).id = p.id) : Steady 0 m (m.modifyProcess id f hf) :=
  ⟨rfl, rfl, rfl, rfl, .refl _⟩

theorem steady_settle (m : Machine) : Steady 0 m m.settle := by
  refine ⟨rfl, rfl, rfl, ?_, ?_⟩
  · rw [scheduler_settle]
  · rw [devices_settle]
    exact .refl _

theorem steady_tickSlice (m : Machine) : Steady 0 m m.tickSlice :=
  steady_setKernel rfl rfl

theorem steady_releaseAll (m : Machine) : Steady 0 m m.releaseAll.1 := by
  have hreleased : Steady 0 m (m.setKernel m.kernel.releaseAll) := steady_setKernel rfl rfl
  exact hreleased.trans (steady_note _ _)

theorem steady_dropHooks (m : Machine) (owner : ProcessId) : Steady 0 m (m.dropHooks owner) := by
  unfold dropHooks unhook
  simp only
  split
  · exact (m.steady_setVectors _).trans (steady_note _ _)
  · exact m.steady_setVectors _

theorem steady_dropHooksOfAll (ids : List ProcessId) :
    ∀ m : Machine, Steady 0 m (m.dropHooksOfAll ids) := by
  induction ids with
  | nil => exact Steady.refl
  | cons id rest ih => exact fun m => (m.steady_dropHooks id).trans (ih _)

theorem steady_answer (m : Machine) (id : ProcessId) (w : Word) : Steady 0 m (m.answer id w) := by
  unfold answer
  split
  · exact ⟨rfl, rfl, rfl, rfl, .refl _⟩
  · exact m.steady_modifyProcess ..

theorem steady_noteRefusal (m : Machine) (id : ProcessId) (code : OperationCode) (c : Completion) :
    Steady 0 m (m.noteRefusal id code c) := by
  unfold noteRefusal
  split
  · exact m.steady_note _
  · exact .refl m

theorem steady_takeEvent (m : Machine) (id : ProcessId) : Steady 0 m (m.takeEvent id).1 := by
  unfold takeEvent
  split
  · exact .refl m
  · split
    · exact .refl m
    · exact (m.steady_modifyProcess ..).trans (steady_note _ _)

/-- The vector table's lock is free again after a short while. -/
theorem Busy.withController (hm : m.Busy) (body : Machine → Machine × α)
    (hbody : ∀ m : Machine, Steady 0 m (body m).1) :
    ∃ n a, m.withController body = .done n a ∧ Steady 0 m n := by
  obtain ⟨hlocks, hinstalled, hidle, hwaits, hclock⟩ :=
    hbody { m with locks := { m.locks with controller := true } }
  unfold Machine.withController
  rw [if_neg (by rw [hm.locks]; exact Bool.false_ne_true)]
  refine ⟨_, _, rfl, ?_, hinstalled, hidle, hwaits, hclock⟩
  show { (body _).1.locks with controller := false } = m.locks
  rw [hlocks, hm.locks]
  rfl

theorem idles_reply {r : Reply} (hn : Steady 0 m n) : m.Idles 0 (n.reply r) :=
  .never hn

theorem finishes_succeed : Finishes fun (n : Machine) (_ : α) => n.succeed :=
  fun n _ => ⟨n, _, rfl, .refl n⟩

theorem finishes_replyOfLine : Finishes replyOfLine := by
  intro n r
  cases r with
  | error e => exact ⟨n, _, rfl, .refl n⟩
  | ok u => exact ⟨n, _, rfl, .refl n⟩

theorem idles_withCurrent {next : Process → Outcome α} (h : ∀ p, m.Idles k (next p)) :
    m.Idles k (m.withCurrent next) := by
  unfold withCurrent
  split
  · exact .unbound
  · exact h _

theorem steady_create {entry : VirtAddr} {map : StackMap} {privileged : Bool} {p : Process}
    (h : m.create entry map privileged = .ok (p, n)) : Steady 0 m n := by
  unfold Machine.create at h
  split at h
  · cases h
  · rename_i hk
    cases h
    rw [(Kernel.creates_of_create hk).kernel]
    exact ⟨rfl, rfl, rfl, rfl, .refl _⟩

theorem steady_remove {status : Word} (h : m.remove target status = .ok n) : Steady 0 m n := by
  unfold Machine.remove at h
  split at h
  · cases h
  · rename_i hk
    cases h
    obtain ⟨_, _, rfl⟩ := Kernel.remove_eq_ok hk
    exact ⟨rfl, rfl, rfl, rfl, .refl _⟩

theorem idles_kill (hm : m.Busy) (status : Word) : m.Idles 0 (m.kill target status) := by
  unfold kill
  split
  · exact idles_reply (.refl m)
  · rename_i w hw
    have hremoved := steady_remove hw
    obtain ⟨v, a, hdone, hv⟩ := (hremoved.busy hm).withController
      (fun m => m.unhook target) fun m => m.steady_dropHooks target
    rw [hdone]
    exact idles_scheduled hm (hremoved.trans hv) finishes_succeed

theorem idles_line (hm : m.Busy) {body : Machine → Machine × Except LineError Unit}
    (hbody : ∀ m : Machine, Steady 0 m (body m).1) :
    m.Idles 0 ((m.withController body).andThen replyOfLine) := by
  obtain ⟨n, r, hdone, hn⟩ := hm.withController body hbody
  rw [hdone]
  obtain ⟨n', c, hdone', hn'⟩ := finishes_replyOfLine n r
  show m.Idles 0 (n.replyOfLine r)
  rw [hdone']
  exact .never (hn.trans hn')

theorem idles_hookLine (hm : m.Busy) (line : Word) :
    m.Idles 0 ((m.hookLine target line).andThen replyOfLine) := by
  refine idles_line hm fun m => ?_
  split
  · exact .refl m
  · exact (m.steady_setVectors _).trans (steady_note _ _)

theorem idles_setLine (hm : m.Busy) (line : Word) (enabled : Bool) :
    m.Idles 0 ((m.setLine line enabled).andThen replyOfLine) := by
  refine idles_line hm fun m => ?_
  split
  · exact .refl m
  · exact (m.steady_setVectors _).trans (steady_note _ _)

theorem idles_writeOut (m : Machine) (buffer : Word) (words : List Word) :
    m.Idles 0 (m.writeOut buffer words) := by
  unfold writeOut
  split
  · exact idles_reply (.refl m)
  · exact idles_reply (steady_setKernel rfl rfl)

theorem idles_sleep (hm : m.Busy) (timer : SleepTimer) : m.Idles 0 (m.sleep timer) := by
  refine idles_withCurrent fun p => ?_
  have hsleeps := m.steady_modifyProcess p.id (Process.sleep timer) (Process.id_sleep timer)
  simp only
  split
  · exact idles_reply (hsleeps.trans (steady_note _ _))
  · exact idles_scheduled hm hsleeps finishes_succeed

theorem idles_perform (hm : m.Busy) (op : Operation) : m.Idles 0 (m.perform caller target op) := by
  cases op with
  | spawn entry =>
    simp only [perform, spawn]
    split
    · exact idles_reply (.refl m)
    · rename_i hcreated
      exact idles_reply ((steady_create hcreated).trans (steady_modifyProcess ..))
  | kill status => exact idles_kill hm status
  | getId => exact idles_reply (.refl m)
  | getParent => exact idles_withCurrent fun p => idles_reply (.refl m)
  | watchLine line => exact idles_hookLine hm line
  | enableLine line => exact idles_setLine hm line true
  | disableLine line => exact idles_setLine hm line false
  | describeProcess buffer =>
    simp only [perform, describeProcess]
    split
    · exact idles_reply (.refl m)
    · exact m.idles_writeOut _ _
  | waitProcess =>
    simp only [perform, waitProcess]
    split
    · exact idles_reply (.refl m)
    · exact idles_withCurrent fun p => idles_scheduled hm (m.steady_modifyProcess ..)
        fun n _ => ⟨n, _, rfl, .refl n⟩
  | readClock buffer =>
    simp only [perform, readClock]
    split
    · exact idles_reply (.refl m)
    · exact m.idles_writeOut _ _
  | waitTimer deadline =>
    simp only [perform, waitTimer]
    split
    · exact idles_reply (.refl m)
    · split
      · exact idles_reply (.refl m)
      · exact idles_withCurrent fun p => idles_scheduled hm (m.steady_modifyProcess ..)
          finishes_succeed
  | enterSleep deadline =>
    simp only [perform, enterSleep]
    split
    · exact idles_sleep hm _
    · split
      · exact idles_reply (.refl m)
      · split
        · exact idles_reply (.refl m)
        · exact idles_sleep hm _
  | yieldCpu => exact idles_scheduled hm (.refl m) finishes_succeed
  | resume =>
    simp only [perform, resume]
    split
    · exact idles_reply (.refl m)
    · exact idles_reply ((m.steady_modifyProcess ..).trans (steady_note _ _))
  | setStack stack =>
    simp only [perform, setStack]
    split
    · exact idles_reply ⟨rfl, rfl, rfl, rfl, .refl _⟩
    · exact idles_reply (m.steady_modifyProcess ..)

theorem idles_serve (hm : m.Busy) (q : Request) : m.Idles 0 (m.serve q) := by
  refine idles_withCurrent fun p => ?_
  split
  · exact idles_reply (m.steady_note _)
  · rename_i code hcode
    have hnoted := m.steady_note (.requested p.id code q.target q.argument)
    refine Idles.andThen ?_ fun n c => ⟨_, c, rfl, n.steady_noteRefusal p.id code c⟩
    split
    · exact idles_reply hnoted
    · exact (idles_perform (hnoted.busy hm) _).after_zero hnoted

theorem idles_request (hm : m.Busy) : m.Idles 0 m.request := by
  refine idles_withCurrent fun p => (idles_serve hm _).andThen fun n c => ?_
  cases c with
  | ready r => exact ⟨_, _, rfl, n.steady_answer _ _⟩
  | deferred => exact ⟨n, _, rfl, .refl n⟩

theorem idles_boot (hm : m.Busy) (entry : VirtAddr) : m.Idles 0 (m.boot entry) := by
  unfold boot
  split
  · exact .never (.refl m)
  · rename_i p w hw
    exact idles_scheduled hm (steady_create hw) fun n _ => ⟨_, _, rfl, n.steady_note _⟩

theorem idles_timerInterrupt (hm : m.Busy) : m.Idles 1 m.timerInterrupt := by
  unfold timerInterrupt
  rcases m.tick_cases with ⟨_, n, hn⟩ | ⟨hfull, hn⟩
  · rw [hn]
    have hsettled : Steady 1 m n.settle := (heard_tick hn).steady.trans n.steady_settle
    simp only [Outcome.andThen_done]
    split
    · exact .never hsettled
    · have hticked : Steady 1 m n.settle.tickSlice := hsettled.trans (steady_tickSlice _)
      unfold accountTick
      simp only
      split
      · exact ((idles_schedule (hticked.busy hm)).andThen fun n _ => ⟨n, _, rfl, .refl n⟩).after
          hticked
      · exact .never hticked
  · rw [hn]
    exact .overruns hfull

theorem idles_interrupt (hm : m.Busy) (frame : Registers) : m.Idles 0 (m.interrupt frame) := by
  rw [interrupt_of_free hm.free.2]
  exact .never ⟨rfl, rfl, rfl, rfl, .refl _⟩

theorem idles_shutdown (hm : m.Busy) : m.Idles 0 m.shutdown := by
  obtain ⟨n, u, hdone, hn⟩ := hm.withController
    (fun m => (m.dropHooksOfAll m.kernel.processes.ids, ())) fun m => m.steady_dropHooksOfAll _
  unfold shutdown
  rw [hdone]
  exact .never (hn.trans n.steady_releaseAll)

theorem finishes_forget : Finishes fun (n : Machine) (_ : α) => .done n () :=
  fun n _ => ⟨n, _, rfl, .refl n⟩

theorem idles_call (hm : m.Busy) (c : Call) : m.Idles c.ticks (m.call c) := by
  cases c with
  | boot entry => exact (idles_boot hm entry).andThen finishes_forget
  | serve q => exact (idles_serve hm q).andThen finishes_forget
  | request => exact idles_request hm
  | timer => exact (idles_timerInterrupt hm).andThen finishes_forget
  | interrupt frame => exact (idles_interrupt hm frame).andThen finishes_forget
  | takeEvent id => exact .never (m.steady_takeEvent id)
  | schedule => exact (idles_schedule hm).andThen finishes_forget
  | shutdown => exact (idles_shutdown hm).andThen finishes_forget

/-! ### No call waits for a lock -/

theorem selectNext_ne_deadlock :
    ∀ {m : Machine}, m.Busy → ∀ journal, selectNext active waits m ≠ .fault .deadlock journal := by
  induction waits with
  | nil =>
    intro m _ journal h
    unfold selectNext at h
    simp only at h
    split at h <;> cases h
  | cons wait waits ih =>
    intro m hm journal h
    by_cases hready : m.settle.SomeReady
    · cases hs : m.settle.kernel.scheduler.select m.settle.kernel.processes with
      | none => exact RoundRobin.select_eq_none_iff.1 hs hready
      | some u =>
        rw [selectNext_of_ready hs] at h
        cases h
    · rw [selectNext_of_none hready] at h
      have hwaits := hm.startWait
      obtain ⟨hroute, hcontroller⟩ := hwaits.free
      rcases arriveAll_of_free hroute hcontroller wait with ⟨_, n, hn⟩ | ⟨_, j, hj⟩
      · rw [hn] at h
        exact ih (hwaits.heard (heard_arriveAll hn)) journal h
      · rw [hj] at h
        cases h

theorem schedule_ne_deadlock (hm : m.Busy) (journal : Journal) :
    m.schedule ≠ .fault .deadlock journal := by
  unfold schedule
  split
  · refine selectNext_ne_deadlock ?_ journal
    rw [suspendCurrent_eq]
    exact ⟨hm.locks, hm.installed⟩
  · rintro ⟨⟩

theorem Idles.ne_deadlock {o : Outcome α} (h : m.Idles k o) (hm : m.Busy) (journal : Journal) :
    o ≠ .fault .deadlock journal := by
  cases h with
  | never _ => rintro ⟨⟩
  | unbound => rintro ⟨⟩
  | overruns _ => rintro ⟨⟩
  | @decides t next ht _ hnext =>
    cases hs : t.schedule with
    | done n id =>
      obtain ⟨n', a, hdone, _⟩ := hnext n id
      rw [Outcome.andThen_done, hdone]
      rintro ⟨⟩
    | fault f j =>
      rintro ⟨⟩
      exact schedule_ne_deadlock (ht.busy hm) _ hs

/-! ### Ticks are counted once -/

/-- The ticks of an operation and of the waits that it has taken. -/
structure Elapsed (own : Nat) (m n : Machine) : Prop where
  locks : n.locks = m.locks
  installed : n.installed = m.installed
  clock : Clock.Passed (own + ((m.idle.take
      (n.kernel.scheduler.idleWaits - m.kernel.scheduler.idleWaits)).flatten.count .tick))
    m.kernel.devices.clock n.kernel.devices.clock

theorem Steady.elapsed (h : Steady k m n) : Elapsed k m n := by
  refine ⟨h.locks, h.installed, ?_⟩
  rw [h.idleWaits, Nat.sub_self]
  exact h.clock

theorem Idles.elapsed {o : Outcome α} {a : α} (h : m.Idles k o) (ho : o = .done n a) :
    Elapsed k m n := by
  cases h with
  | never hn =>
    cases ho
    exact hn.elapsed
  | unbound => cases ho
  | overruns _ => cases ho
  | @decides t next ht _ hnext =>
    obtain ⟨v, id, hv, hn⟩ := Outcome.andThen_eq_done_iff.1 ho
    obtain ⟨n', b, hdone, hsteady⟩ := hnext v id
    cases hdone.symm.trans hn
    obtain ⟨j, w, p, _, he⟩ := schedule_ends hv
    refine ⟨hsteady.locks.trans (he.locks_eq.trans ht.locks),
      hsteady.installed.trans (he.installed_eq.trans ht.installed), ?_⟩
    rw [hsteady.idleWaits, he.idleWaits, ht.idleWaits, Nat.add_sub_cancel_left, ← ht.idle]
    exact (ht.clock.trans he.clock).trans hsteady.clock

/-- The traps of the timer that an action is. -/
def ownTicks : Action → Nat
  | .timer => 1
  | .arrival .tick => 1
  | _ => 0

/-- The traps of the timer in a run, its own and those in its waits. -/
def timerTraps (m : Machine) : List (Action × Machine) → Nat
  | [] => 0
  | (a, n) :: rest =>
    ownTicks a + (m.idle.take (n.kernel.scheduler.idleWaits -
      m.kernel.scheduler.idleWaits)).flatten.count .tick + n.timerTraps rest

/-- The installed kernel at work in its slot. -/
def inSlot (m : Machine) : Machine :=
  { m with locks := .busy }

theorem withKernel_inSlot (hl : m.locks = .free) (hi : m.installed = true)
    (op : Machine → Outcome α) : m.withKernel op = (op m.inSlot).andThen fun n a =>
      .done { n with locks := { n.locks with slot := false } } a := by
  unfold withKernel withSlot
  rw [if_pos hi, hl, if_neg (by exact Bool.false_ne_true)]
  rfl

theorem busy_inSlot (hi : m.installed = true) : m.inSlot.Busy :=
  ⟨rfl, hi⟩

theorem elapsed_withKernel (hl : m.locks = .free) (hi : m.installed = true)
    (op : Machine → Outcome α) {a : α} (hop : m.inSlot.Idles k (op m.inSlot))
    (h : m.withKernel op = .done n a) : Elapsed k m n := by
  rw [withKernel_inSlot hl hi] at h
  obtain ⟨w, b, hw, hn⟩ := Outcome.andThen_eq_done_iff.1 h
  cases hn
  have helapsed := hop.elapsed hw
  refine ⟨?_, helapsed.installed, helapsed.clock⟩
  rw [hl]
  show { w.locks with slot := false } = Locks.free
  rw [helapsed.locks]
  rfl

/-- A kernel in the slot stays there, and so does its route. -/
theorem install_of_installed (hl : m.locks = .free) (hi : m.installed = true) :
    m.install = .done m false := by
  obtain ⟨kernel, frame, idle, activated, journal, locks, installed⟩ := m
  cases hl
  cases hi
  rfl

theorem elapsed_act {a : Action} (hl : m.locks = .free) (hi : m.installed = true)
    (h : m.act a = .done n ()) : Elapsed (ownTicks a) m n := by
  have hbusy := busy_inSlot hi
  cases a with
  | compute frame memory idle =>
    cases h
    have hwaits : (m.compute frame memory idle).kernel.scheduler.idleWaits =
        m.kernel.scheduler.idleWaits := rfl
    refine ⟨rfl, rfl, ?_⟩
    rw [hwaits, Nat.sub_self]
    exact .refl _
  | arrival a =>
    have hticks : ownTicks (.arrival a) = [a].count .tick := by cases a <;> rfl
    rw [hticks]
    exact (heard_arrive h).steady.elapsed
  | boot entry =>
    obtain ⟨r, h⟩ := forget_done h
    exact elapsed_withKernel hl hi (fun m => m.boot entry) (idles_boot hbusy entry) h
  | request => exact elapsed_withKernel hl hi request (idles_request hbusy) h
  | timer =>
    obtain ⟨r, h⟩ := forget_done h
    exact elapsed_withKernel hl hi timerInterrupt (idles_timerInterrupt hbusy) h
  | interrupt frame =>
    obtain ⟨r, h⟩ := forget_done h
    exact elapsed_withKernel hl hi (fun m => m.interrupt frame) (idles_interrupt hbusy frame) h
  | takeEvent id =>
    cases h
    exact (m.steady_takeEvent id).elapsed
  | shutdown =>
    obtain ⟨r, h⟩ := forget_done h
    exact elapsed_withKernel hl hi shutdown (idles_shutdown hbusy) h
  | install =>
    obtain ⟨r, h⟩ := forget_done h
    rw [install_of_installed hl hi] at h
    cases h
    exact (Steady.refl m).elapsed

/-- The clock of an installed kernel goes on by one for each trap of the timer, and by nothing
else. -/
theorem clock_run {run : List (Action × Machine)} (hr : Run m run) :
    m.locks = .free → m.installed = true → Clock.Passed (m.timerTraps run)
      m.kernel.devices.clock (m.final run).kernel.devices.clock := by
  induction hr with
  | nil => exact fun _ _ => .refl _
  | @cons m n a rest ha _ ih =>
    intro hl hi
    have h := elapsed_act hl hi ha
    exact h.clock.trans (ih (h.locks.trans hl) (h.installed.trans hi))

/-- The machines on which the kernel is called while it is in its slot: at once, or after other
calls, and whatever has been done to its processes between them. -/
inductive InSlot (m : Machine) : Machine → Prop where
  | enter : InSlot m m.inSlot
  | call {s n : Machine} {c : Call} : InSlot m s → s.call c = .done n () → InSlot m n
  | change {s : Machine} (kernel : Kernel) (frame : Registers) :
      InSlot m s → InSlot m { s with kernel, frame }

theorem InSlot.busy {s : Machine} (h : m.InSlot s) (hi : m.installed = true) : s.Busy := by
  induction h with
  | enter => exact busy_inSlot hi
  | call _ hc ih =>
    have helapsed := (idles_call ih _).elapsed hc
    exact ⟨helapsed.locks.trans ih.locks, helapsed.installed.trans ih.installed⟩
  | change _ _ _ ih => exact ⟨ih.locks, ih.installed⟩

/-- With its slot free a trap of the timer is a tick for the kernel. -/
theorem timerEntry_of_free (hl : m.locks = .free) (hi : m.installed = true) :
    m.timerEntry = m.act .timer := by
  show m.timerEntry = forget (m.withKernel timerInterrupt)
  unfold timerEntry withKernel
  rw [if_pos (by rw [hi, hl]; rfl), if_pos hi]
  exact withSlot_forget timerInterrupt

/-- Of an installed kernel: whatever is asked of it in its slot, it idles in one decision at most,
with no lock held but that of the slot, so the traps that come in meanwhile wait for none and do
nothing but to reach the devices; each trap of the timer, in a wait or not, is one tick of the
clock, and nothing else is; and the kernel is installed once and for all. -/
theorem nested_traps (hm : Reachable m) (hi : m.installed = true) :
    (∀ s, m.InSlot s → ∀ c, s.Idles c.ticks (s.call c)) ∧
    (∀ c journal, (m.withKernel fun m => m.call c) ≠ .fault .deadlock journal) ∧
    (∀ run, Run m run →
      Clock.Passed (m.timerTraps run) m.kernel.devices.clock (m.final run).kernel.devices.clock) ∧
    m.timerEntry = m.act .timer ∧ m.install = .done m false := by
  have hl := locks_of_reachable hm
  refine ⟨fun s hs c => idles_call (hs.busy hi) c, fun c journal h => ?_,
    fun run hr => clock_run hr hl hi, timerEntry_of_free hl hi, install_of_installed hl hi⟩
  have hbusy := busy_inSlot hi
  rw [withKernel_inSlot hl hi] at h
  cases hcall : m.inSlot.call c with
  | done n u =>
    rw [hcall] at h
    cases h
  | fault f j =>
    rw [hcall] at h
    cases h
    exact (idles_call hbusy c).ne_deadlock hbusy _ hcall

/-- The first process sleeps as well. Three ticks later an interrupt wakes the second one. -/
def sleepsThrough : List Action :=
  [.compute (asking 0 .enterSleep 0) .zeroed [[.tick, .tick], [.tick, .interrupt 33]], .request,
    .timer]

/-- With the tick after that there have been four. -/
theorem nested_traps_four : ∃ m run, trial (oneWatcher ++ [.install]) = .done m () ∧
    m.installed = true ∧ Run m run ∧ run.length = 3 ∧
    Clock.Passed 4 m.kernel.devices.clock (m.final run).kernel.devices.clock ∧
    m.install = .done m false := by
  obtain ⟨m, hm, hcheck⟩ := Outcome.exists_of_endsIn (trial (oneWatcher ++ [.install]))
    (fun m => m.installed && (m.trace sleepsThrough).length == 3 &&
      m.timerTraps (m.trace sleepsThrough) == 4)
    (by decide +kernel)
  simp only [Bool.and_eq_true, beq_iff_eq] at hcheck
  obtain ⟨⟨hi, hlength⟩, htraps⟩ := hcheck
  have hrun := m.run_trace sleepsThrough
  obtain ⟨_, _, hclock, _, hinstall⟩ := nested_traps (.trial hm) hi
  have hfour := hclock _ hrun
  rw [htraps] at hfour
  exact ⟨m, _, hm, hi, hrun, hlength, hfour, hinstall⟩

end Machine
end Nucleus
