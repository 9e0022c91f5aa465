import Nucleus.Proofs.Binding
import Nucleus.Proofs.Traffic
import Nucleus.Proofs.Validation

/-!
# Nucleus.Proofs.Moved

Every action is one move of the traffic, and which one can be said beforehand: one lemma for each
operation, from the locks up.

* `Machine.deed`: what an action comes to, by the state it finds.
* `Machine.Via`: the traffic of a machine changes in some way, and its locks, its configuration, the
  room of its inbox and the number of its lines not at all.
* `timely_schedule_delivered`: a decision begins by emptying the inbox.
* `moved_act`: every action is a move.
* `traffic_invariant`: so what every move keeps holds between any two actions.
-/

namespace Nucleus

theorem Inbox.capacity_push (i : Inbox) (owner : ProcessId) (e : Event) :
    (i.push owner e).queue.capacity = i.queue.capacity := by
  unfold push
  split
  · exact BoundedQueue.capacity_push _ _
  · rfl

theorem Inbox.capacity_announceAll (frame : Registers) (hooks : List Hook) :
    ∀ i : Inbox, (announceAll frame i hooks).queue.capacity = i.queue.capacity := by
  induction hooks with
  | nil => exact fun _ => rfl
  | cons h rest ih =>
    intro i
    rw [announceAll, ih]
    unfold announce
    split
    · rfl
    · exact i.capacity_push _ _

/-! ### Deeds -/

/-- What an operation can come to. -/
inductive Operation.ComesTo (caller target : ProcessId) : Operation → Deed → Prop where
  | nothing {op : Operation} : ComesTo caller target op .nothing
  | spawn {entry : VirtAddr} {id : ProcessId} : ComesTo caller target (.spawn entry) (.create id)
  | kill {status : Word} : ComesTo caller target (.kill status) (.finish target)
  | watchLine {line : Word} : ComesTo caller target (.watchLine line) (.hook line target)
  | waitTimer {deadline : Instant} : ComesTo caller target (.waitTimer deadline) (.pause caller)
  | spared {deadline : Option Instant} :
      ComesTo caller target (.enterSleep deadline) (.spare caller)
  | slept {deadline : Option Instant} :
      ComesTo caller target (.enterSleep deadline) (.sleep caller)
  | resume : ComesTo caller target .resume (.wake target)

namespace Kernel

/-- There is a clock, and the deadline has not been reached. -/
def isAhead (k : Kernel) (deadline : Instant) : Bool :=
  match k.now? with
  | none => false
  | some now => !deadline.reachedBy now

/-- What a request to sleep comes to: a pending wakeup is used up, or the process sleeps. -/
def rest (k : Kernel) (id : ProcessId) : Deed :=
  match k.processes.get? id with
  | none => .nothing
  | some p =>
    match p.sleepOutcome with
    | .alreadyWoken => .spare id
    | .willSleep => .sleep id

def creation (k : Kernel) (entry : VirtAddr) (privileged : Bool) : Deed :=
  match k.create entry k.config.stackMap privileged with
  | .error _ => .nothing
  | .ok (p, _) => .create p.id

/-- What a request to sleep comes to, with a deadline or without. -/
def nap (k : Kernel) (id : ProcessId) : Option Instant → Deed
  | none => k.rest id
  | some deadline => if k.isAhead deadline then k.rest id else .nothing

/-- What an operation on a target that exists comes to. -/
def deed (k : Kernel) (caller target : ProcessId) : Operation → Deed
  | .spawn entry => k.creation entry false
  | .kill _ => .finish target
  | .watchLine line => if line < k.devices.vectors.lines then .hook line target else .nothing
  | .waitTimer deadline => if k.isAhead deadline then .pause caller else .nothing
  | .enterSleep deadline => k.nap caller deadline
  | .resume => .wake target
  | _ => .nothing

section Deed

variable (k : Kernel) (caller target : ProcessId)

theorem deed_spawn (entry : VirtAddr) :
    k.deed caller target (.spawn entry) = k.creation entry false := rfl

theorem deed_watchLine (line : Word) : k.deed caller target (.watchLine line) =
    if line < k.devices.vectors.lines then .hook line target else .nothing := rfl

theorem deed_waitTimer (deadline : Instant) : k.deed caller target (.waitTimer deadline) =
    if k.isAhead deadline then .pause caller else .nothing := rfl

theorem deed_enterSleep (deadline : Option Instant) :
    k.deed caller target (.enterSleep deadline) = k.nap caller deadline := rfl

theorem nap_some (deadline : Instant) : k.nap caller (some deadline) =
    if k.isAhead deadline then k.rest caller else .nothing := rfl

end Deed

theorem enterSleep_rest (k : Kernel) (caller target : ProcessId) (deadline : Option Instant) :
    (Operation.enterSleep deadline).ComesTo caller target (k.rest caller) := by
  unfold rest
  split
  · exact .nothing
  · split
    · exact .spared
    · exact .slept

theorem rest_eq_sleep {k : Kernel} {id : ProcessId} (h : k.rest id = .sleep id) :
    ∃ p, k.processes.get? id = some p ∧ p.wakeups = 0 := by
  unfold rest at h
  split at h
  · cases h
  · rename_i p hp
    split at h
    · cases h
    · rename_i hs
      exact ⟨p, hp, Process.sleepOutcome_eq_willSleep_iff.1 hs⟩

theorem spawn_creation (k : Kernel) (caller target : ProcessId) (entry : VirtAddr) :
    (Operation.spawn entry).ComesTo caller target (k.creation entry false) := by
  unfold creation
  split
  · exact .nothing
  · exact .spawn

theorem deed_comesTo (k : Kernel) (caller target : ProcessId) (op : Operation) :
    op.ComesTo caller target (k.deed caller target op) := by
  cases op with
  | spawn entry => exact k.spawn_creation caller target entry
  | kill status => exact .kill
  | watchLine line =>
    rw [deed_watchLine]
    split
    · exact .watchLine
    · exact .nothing
  | waitTimer deadline =>
    rw [deed_waitTimer]
    split
    · exact .waitTimer
    · exact .nothing
  | enterSleep deadline =>
    cases deadline with
    | none => exact k.enterSleep_rest caller target none
    | some deadline =>
      rw [deed_enterSleep, nap_some]
      split
      · exact k.enterSleep_rest caller target (some deadline)
      · exact .nothing
  | resume => exact .resume
  | _ => exact .nothing

/-- The process with the CPU does not sleep. -/
def Awake (k : Kernel) : Prop :=
  ∀ {p}, k.currentProcess? = some p → p.state ≠ .sleeping

theorem Bound.awake {k : Kernel} (h : k.Bound) : k.Awake := by
  intro p hp
  obtain ⟨hc, hget⟩ := Machine.currentProcess?_eq_some hp
  rw [(h.running_iff hget).2 hc]
  rintro ⟨⟩

theorem isAhead_of_none {k : Kernel} (h : k.now? = none) (deadline : Instant) :
    k.isAhead deadline = false := by
  unfold isAhead
  rw [h]

theorem isAhead_of_some {k : Kernel} {now : Instant} (h : k.now? = some now) (deadline : Instant) :
    k.isAhead deadline = !deadline.reachedBy now := by
  unfold isAhead
  rw [h]

end Kernel

namespace Machine

/-- A tick that passes by the kernel moves the clock only. -/
def deedOfArrival : Arrival → Deed
  | .tick => .tick
  | .interrupt _ => .nothing

def deedOfRequest (m : Machine) : Deed :=
  match m.kernel.currentProcess?, m.asked m.frame.request with
  | some caller, some (target, op) => m.kernel.deed caller.id target op
  | _, _ => .nothing

def deedOfTaking (m : Machine) (id : ProcessId) : Deed :=
  match m.kernel.processes.get? id with
  | none => .nothing
  | some p => if p.nextEvent?.isSome then .take id else .nothing

/-- What an action comes to, if it comes to an end. -/
def deed (m : Machine) : Action → Deed
  | .arrival a => deedOfArrival a
  | .boot entry => m.kernel.creation entry true
  | .request => m.deedOfRequest
  | .takeEvent id => m.deedOfTaking id
  | .shutdown => .release
  | _ => .nothing

/-- What an action can come to. -/
inductive ComesTo (m : Machine) : Action → Deed → Prop where
  | nothing {a : Action} : ComesTo m a .nothing
  | tick : ComesTo m (.arrival .tick) .tick
  | boot {entry : VirtAddr} {id : ProcessId} : ComesTo m (.boot entry) (.create id)
  | request {p : Process} {target : ProcessId} {op : Operation} {d : Deed} :
      m.kernel.currentProcess? = some p → m.asked m.frame.request = some (target, op) →
      m.kernel.deed p.id target op = d → ComesTo m .request d
  | takeEvent {id : ProcessId} : ComesTo m (.takeEvent id) (.take id)
  | shutdown : ComesTo m .shutdown .release

theorem deed_comesTo (m : Machine) (a : Action) : m.ComesTo a (m.deed a) := by
  cases a with
  | arrival a =>
    cases a with
    | tick => exact .tick
    | interrupt vector => exact .nothing
  | boot entry =>
    show m.ComesTo _ (m.kernel.creation entry true)
    unfold Kernel.creation
    split
    · exact .nothing
    · exact .boot
  | request =>
    show m.ComesTo _ m.deedOfRequest
    unfold deedOfRequest
    split
    · rename_i p target op hp hasked
      exact .request hp hasked rfl
    · exact .nothing
  | takeEvent id =>
    show m.ComesTo _ (m.deedOfTaking id)
    unfold deedOfTaking
    split
    · exact .nothing
    · split
      · exact .takeEvent
      · exact .nothing
  | shutdown => exact .shutdown
  | _ => exact .nothing

theorem deed_request {m : Machine} {p : Process} {target : ProcessId} {op : Operation}
    (hp : m.kernel.currentProcess? = some p)
    (hasked : m.asked m.frame.request = some (target, op)) :
    m.deed .request = m.kernel.deed p.id target op := by
  show m.deedOfRequest = _
  unfold deedOfRequest
  simp only [hp, hasked]

theorem deed_request_of_none {m : Machine} (hasked : m.asked m.frame.request = none) :
    m.deed .request = .nothing := by
  show m.deedOfRequest = _
  unfold deedOfRequest
  rw [hasked]
  cases m.kernel.currentProcess? <;> rfl

theorem deed_eq_tick {m : Machine} {a : Action} (h : m.deed a = .tick) : a = .arrival .tick := by
  have hcomes := m.deed_comesTo a
  rw [h] at hcomes
  cases hcomes with
  | tick => rfl
  | @request p target op _ _ _ hop =>
    have hop' := m.kernel.deed_comesTo p.id target op
    rw [hop] at hop'
    cases hop'

theorem deed_eq_wake {m : Machine} {a : Action} {id : ProcessId} (h : m.deed a = .wake id) :
    a = .request ∧ m.asked m.frame.request = some (id, .resume) := by
  have hcomes := m.deed_comesTo a
  rw [h] at hcomes
  cases hcomes with
  | @request p target op _ _ hasked hop =>
    have hop' := m.kernel.deed_comesTo p.id target op
    rw [hop] at hop'
    cases hop'
    exact ⟨rfl, hasked⟩

/-- Who goes to sleep has no wakeup pending. -/
theorem deed_eq_sleep {m : Machine} {a : Action} {id : ProcessId} (h : m.deed a = .sleep id) :
    ∃ p, m.kernel.processes.get? id = some p ∧ p.wakeups = 0 := by
  have hcomes := m.deed_comesTo a
  rw [h] at hcomes
  cases hcomes with
  | @request p target op _ _ hasked hop =>
    have hop' := m.kernel.deed_comesTo p.id target op
    rw [hop] at hop'
    cases hop' with
    | @slept deadline =>
      refine Kernel.rest_eq_sleep ?_
      cases deadline with
      | none => exact hop
      | some deadline =>
        rw [Kernel.deed_enterSleep, Kernel.nap_some] at hop
        split at hop
        · exact hop
        · cases hop

def traffic (m : Machine) : Traffic where
  now := m.kernel.now?
  processes := m.kernel.processes
  inbox := m.kernel.devices.inbox
  hooks := m.kernel.devices.vectors.hooks
  journal := m.journal

/-- What is the same before and after every operation. -/
def fixed (m : Machine) : Locks × Config × Nat × Word :=
  (m.locks, m.kernel.config, m.kernel.devices.inbox.queue.capacity, m.kernel.devices.vectors.lines)

/-- The traffic changes in a certain way, and what is fixed does not. -/
structure Via (R : Traffic → Traffic → Prop) (m n : Machine) : Prop where
  fixed : n.fixed = m.fixed
  traffic : R m.traffic n.traffic

abbrev Calm : Machine → Machine → Prop :=
  Via Traffic.Calm

abbrev Timely : Machine → Machine → Prop :=
  Via Traffic.Timely

/-- The traffic makes a move with a certain deed. -/
abbrev Moved (m : Machine) (d : Deed) : Machine → Prop :=
  Via (Traffic.Move d) m

variable {m n o : Machine} {R : Traffic → Traffic → Prop} {d : Deed}

theorem Calm.refl (m : Machine) : m.Calm m :=
  ⟨rfl, .refl⟩

theorem Calm.trans (h : m.Calm n) (h' : n.Calm o) : m.Calm o :=
  ⟨h'.fixed.trans h.fixed, Relation.ReflTransGen.trans h.traffic h'.traffic⟩

theorem Timely.refl (m : Machine) : m.Timely m :=
  ⟨rfl, .refl _⟩

theorem Timely.trans (h : m.Timely n) (h' : n.Timely o) : m.Timely o :=
  ⟨h'.fixed.trans h.fixed, h.traffic.trans h'.traffic⟩

theorem Timely.calm (h : m.Timely n) : m.Calm n :=
  ⟨h.fixed, h.traffic.calm⟩

theorem Calm.timely (h : m.Calm n) (hn : n.traffic.Punctual) : m.Timely n :=
  ⟨h.fixed, h.traffic, .inr hn⟩

theorem Timely.moved (h : m.Timely n) : m.Moved .nothing n :=
  ⟨h.fixed, .quiet h.traffic⟩

theorem Moved.before (h : m.Timely n) (h' : n.Moved d o) : m.Moved d o :=
  ⟨h'.fixed.trans h.fixed, h'.traffic.before h.traffic⟩

theorem Moved.after (h : m.Moved d n) (h' : n.Timely o) : m.Moved d o :=
  ⟨h'.fixed.trans h.fixed, h.traffic.after h'.traffic⟩

theorem timely_note {k : Note} (h : k.isAside = true) : m.Timely (m.note k) :=
  ⟨rfl, Traffic.timely_aside h⟩

theorem timely_report {notes : List Note} (h : ∀ k ∈ notes, k.isAside = true) :
    m.Timely (m.report notes) :=
  ⟨rfl, Traffic.timely_asides h _⟩

theorem timely_modifyProcess {id : ProcessId} {f : Process → Process} (hf : ∀ p, (f p).id = p.id)
    (h : ∀ p, m.kernel.processes.get? id = some p → p.Untold (f p)) :
    m.Timely (m.modifyProcess id f hf) :=
  ⟨rfl, Traffic.timely_untold (Registry.rel_modify Process.Untold.refl hf h)⟩

/-! ### Behind the locks -/

/-- A lock is taken before and given back afterwards. -/
theorem Via.locked (take give : Locks → Locks) (hback : give (take m.locks) = m.locks)
    (h : ({ m with locks := take m.locks } : Machine).Via R n) :
    m.Via R { n with locks := give n.locks } := by
  obtain ⟨hfixed, htraffic⟩ := h
  unfold Machine.fixed at hfixed
  simp only [Prod.mk.injEq] at hfixed
  obtain ⟨hlocks, hrest⟩ := hfixed
  refine ⟨?_, htraffic⟩
  unfold Machine.fixed
  simp only [Prod.mk.injEq]
  exact ⟨by rw [hlocks, hback], hrest⟩

theorem via_withController {α : Type} {a : α} {body : Machine → Machine × α}
    (hbody : ∀ locks, ({ m with locks } : Machine).Via R (body { m with locks }).1)
    (h : m.withController body = .done n a) : m.Via R n := by
  unfold withController at h
  split at h
  · cases h
  · rename_i hfree
    cases h
    refine Via.locked (fun l => { l with controller := true })
      (fun l => { l with controller := false }) ?_ (hbody _)
    simp [← eq_false_of_ne_true hfree]

theorem via_withRoute {α : Type} {a : α} {body : Machine → Outcome α}
    (hbody : ∀ {locks n a}, body { m with locks } = .done n a →
      ({ m with locks } : Machine).Via R n)
    (h : m.withRoute body = .done n a) : m.Via R n := by
  unfold withRoute at h
  split at h
  · cases h
  · rename_i hfree
    obtain ⟨w, b, hb, hn⟩ := Outcome.andThen_eq_done_iff.1 h
    cases hn
    refine Via.locked (fun l => { l with route := true })
      (fun l => { l with route := false }) ?_ (hbody hb)
    simp [← eq_false_of_ne_true hfree]

theorem via_withSlot {α : Type} {a : α} {body : Machine → Outcome α}
    (hbody : ∀ {locks n a}, body { m with locks } = .done n a →
      ({ m with locks } : Machine).Via R n)
    (h : m.withSlot body = .done n a) : m.Via R n := by
  unfold withSlot at h
  split at h
  · cases h
  · rename_i hfree
    obtain ⟨w, b, hb, hn⟩ := Outcome.andThen_eq_done_iff.1 h
    cases hn
    refine Via.locked (fun l => { l with slot := true })
      (fun l => { l with slot := false }) ?_ (hbody hb)
    simp [← eq_false_of_ne_true hfree]

theorem via_withKernel {α : Type} {a : α} {op : Machine → Outcome α}
    (hop : ∀ {locks n a}, op { m with locks } = .done n a →
      ({ m with locks } : Machine).Via R n)
    (h : m.withKernel op = .done n a) : m.Via R n := by
  unfold withKernel at h
  split at h
  · exact via_withSlot hop h
  · exact hop h

/-- With the vector table's lock free, what is done under it is done. -/
theorem withController_eq {α : Type} {a : α} {body : Machine → Machine × α}
    (hl : m.locks.controller = false) (hn : n.locks = m.locks)
    (h : body { m with locks := { m.locks with controller := true } } =
      ({ n with locks := { n.locks with controller := true } }, a)) :
    m.withController body = .done n a := by
  unfold withController
  rw [if_neg (by rw [hl]; exact Bool.false_ne_true), h]
  obtain ⟨k, frame, idle, activated, journal, ⟨slot, route, controller⟩, installed⟩ := n
  replace hl : controller = false := by rw [← hl, ← hn]
  cases hl
  rfl

/-- A call goes on with the kernel's slot locked, or not, and gives it back. -/
theorem withKernel_of_free {α : Type} (hl : m.locks = .free) (op : Machine → Outcome α) :
    ∃ (locks : Locks) (give : Locks → Locks), m.withKernel op =
      (op { m with locks }).andThen fun n a => .done { n with locks := give n.locks } a := by
  unfold withKernel
  split
  · unfold withSlot
    rw [hl, if_neg (by exact Bool.false_ne_true)]
    exact ⟨_, fun locks => { locks with slot := false }, rfl⟩
  · refine ⟨m.locks, id, ?_⟩
    show op m = (op m).andThen _
    cases op m <;> rfl

/-- A call that does not depend on the other locks ends with them free again. -/
theorem withKernel_of_locks {α : Type} {a : α} {op : Machine → Outcome α} (hl : m.locks = .free)
    (hn : n.locks = .free)
    (hop : ∀ locks : Locks, locks.controller = false →
      op { m with locks } = .done { n with locks } a) : m.withKernel op = .done n a := by
  obtain ⟨k, frame, idle, activated, journal, locks, installed⟩ := m
  obtain ⟨k', frame', idle', activated', journal', locks', installed'⟩ := n
  cases hl
  cases hn
  unfold withKernel
  split
  · unfold withSlot
    rw [if_neg (by exact Bool.false_ne_true), hop _ rfl]
    rfl
  · exact hop .free rfl

/-! ### What arrives at the devices -/

theorem timely_deliverEvents (m : Machine) : m.Timely m.deliverEvents :=
  ⟨rfl, Traffic.calm_deliver rfl, .inl rfl⟩

theorem pending_deliverEvents (m : Machine) : m.deliverEvents.traffic.inbox.pending = [] := rfl

/-- The machine when the ends of sleeps have been told, in so far as it matters to the traffic. -/
theorem traffic_wakeExpired {now : Instant} (hn : m.kernel.now? = some now) :
    m.wakeExpired.traffic = { m.traffic with
      processes := m.kernel.processes.wakeExpired now
      journal := (m.kernel.processes.expiryNotes now).reverse ++ m.journal } := by
  unfold wakeExpired Kernel.wakeExpired Kernel.expiryNotes
  rw [hn]
  rfl

theorem wakeExpired_of_none (hn : m.kernel.now? = none) : m.wakeExpired = m := by
  unfold wakeExpired Kernel.wakeExpired Kernel.expiryNotes
  rw [hn]
  rfl

theorem calm_wakeExpired (m : Machine) : m.Calm m.wakeExpired := by
  cases hn : m.kernel.now? with
  | none =>
    rw [wakeExpired_of_none hn]
    exact .refl m
  | some now =>
    refine ⟨?_, ?_⟩
    · unfold wakeExpired Kernel.wakeExpired
      rw [hn]
      rfl
    · rw [traffic_wakeExpired hn]
      exact .single (.expired hn)

theorem punctual_wakeExpired (m : Machine) : m.wakeExpired.traffic.Punctual := by
  cases hn : m.kernel.now? with
  | none =>
    rw [wakeExpired_of_none hn]
    intro id p now deadline _ _ _ hnow
    cases hn.symm.trans hnow
  | some now =>
    rw [traffic_wakeExpired hn]
    exact Traffic.punctual_expired hn _

theorem timely_settle (m : Machine) : m.Timely m.settle :=
  (m.timely_deliverEvents.calm.trans (calm_wakeExpired _)).timely (punctual_wakeExpired _)

theorem timely_dispatch {frame : Registers} {count : Nat} (h : m.dispatch frame = .done n count) :
    m.Timely n := by
  refine via_withController (fun locks => ?_) h
  refine ⟨?_, ?_, .inl rfl⟩
  · show (_, _, (Inbox.announceAll ..).queue.capacity, _) = _
    rw [Inbox.capacity_announceAll]
    rfl
  · show m.traffic.Calm { m.traffic with
      inbox := Inbox.announceAll frame _ (m.kernel.devices.vectors.triggered frame), journal := _ }
    cases hline : frame.line? with
    | none =>
      unfold Devices.dispatchNotes VectorTable.triggered
      rw [hline]
      exact .refl
    | some line =>
      refine Traffic.calm_announceAll hline fun h hh => ?_
      unfold VectorTable.triggered at hh
      rw [hline] at hh
      obtain ⟨hmem, hl⟩ := List.mem_filter.1 hh
      exact ⟨hmem, eq_of_beq hl⟩

theorem ticks_advance {c c' : Clock} {k : Word} (h : c.advance k = .ok c') :
    c.ticks ≤ c'.ticks := by
  unfold Clock.advance at h
  split at h
  · rename_i ticks hadd
    cases h
    have := Word.add?_eq_some_iff.1 hadd
    rw [UInt64.le_iff_toNat_le]
    show c.ticks.toNat ≤ ticks.toNat
    omega
  · cases h

theorem calm_tick {u : Unit} (h : m.tick = .done n u) : m.Calm n := by
  unfold tick Devices.tick Devices.advance at h
  split at h
  · cases h
  · rename_i d hd
    cases h
    split at hd
    · cases hd
      exact .refl m
    · rename_i c hc
      split at hd
      · cases hd
      · rename_i c' hc'
        cases hd
        have hnow : m.traffic.now = some c.now := by
          show m.kernel.now? = _
          unfold Kernel.now?
          rw [hc]
        have hlater : c.now.ticks ≤ c'.now.ticks := ticks_advance hc'
        exact ⟨rfl, .single (.ticked hnow hlater)⟩

theorem timely_interruptEntry {frame : Registers} {u : Unit}
    (h : m.interruptEntry frame = .done n u) : m.Timely n := by
  refine via_withRoute (fun {locks n u} h => ?_) h
  split at h
  · obtain ⟨w, count, hd, hn⟩ := Outcome.andThen_eq_done_iff.1 h
    cases hn
    exact timely_dispatch hd
  · cases h
    exact Timely.refl _

theorem calm_routeTick {u : Unit} (h : m.routeTick = .done n u) : m.Calm n := by
  refine via_withRoute (fun {locks n u} h => ?_) h
  split at h
  · exact calm_tick h
  · cases h
    exact Calm.refl _

theorem calm_tickArrival {u : Unit} (h : m.arrive .tick = .done n u) : m.Calm n := by
  simp only [arrive] at h
  split at h
  · exact calm_routeTick h
  · exact calm_tick h

theorem timely_interruptArrival {vector : Word} {u : Unit}
    (h : m.arrive (.interrupt vector) = .done n u) : m.Timely n := by
  simp only [arrive] at h
  split at h
  · exact timely_interruptEntry h
  · obtain ⟨w, count, hd, hn⟩ := Outcome.andThen_eq_done_iff.1 h
    cases hn
    exact timely_dispatch hd

theorem calm_arrive {a : Arrival} {u : Unit} (h : m.arrive a = .done n u) : m.Calm n := by
  cases a with
  | tick => exact calm_tickArrival h
  | interrupt vector => exact (timely_interruptArrival h).calm

theorem calm_arriveAll {as : List Arrival} :
    ∀ {m n : Machine} {u : Unit}, m.arriveAll as = .done n u → m.Calm n := by
  induction as with
  | nil =>
    intro m n u h
    cases h
    exact .refl m
  | cons a rest ih =>
    intro m n u h
    obtain ⟨w, u', ha, hrest⟩ := Outcome.andThen_eq_done_iff.1 h
    exact (calm_arrive ha).trans (ih hrest)

/-! ### Scheduling decisions -/

theorem timely_suspendCurrent (m : Machine) : m.Timely m.suspendCurrent := by
  unfold suspendCurrent
  split
  · exact .refl m
  · exact timely_modifyProcess _ fun p _ => p.untold_suspend m.frame

theorem timely_giveCpu {active : Option PhysAddr} {p : Process} {s : RoundRobin}
    (h : m.kernel.scheduler.select m.kernel.processes = some (p, s)) :
    m.Timely (m.giveCpu active p s) := by
  obtain ⟨_, hp, hready, _⟩ := RoundRobin.select_eq_some h
  have hrun : m.Timely (m.modifyProcess p.id Process.run) := by
    refine timely_modifyProcess _ fun q hq => ?_
    rw [hp] at hq
    cases hq
    refine Process.untold_of_awake rfl rfl rfl ?_ (by rintro ⟨⟩)
    rw [hready]
    rintro ⟨⟩
  unfold giveCpu
  simp only
  split
  · exact ⟨hrun.fixed, hrun.traffic⟩
  · exact ⟨hrun.fixed, hrun.traffic.trans (Traffic.timely_aside rfl)⟩

/-- Once a ready process is found, deadlines have just been looked at. -/
theorem calm_selected {active : Option PhysAddr} {p : Process} {s : RoundRobin}
    {rest : List (List Arrival)}
    (h : m.settle.kernel.scheduler.select m.settle.kernel.processes = some (p, s)) :
    m.deliverEvents.Calm { m.settle.giveCpu active p s with idle := rest } ∧
      (m.settle.giveCpu active p s).traffic.Punctual := by
  have hgive : m.settle.Timely (m.settle.giveCpu active p s) := timely_giveCpu h
  exact ⟨(calm_wakeExpired _).trans ⟨hgive.fixed, hgive.traffic.calm⟩,
    Traffic.Punctual.timely (punctual_wakeExpired _) hgive.traffic⟩

theorem calm_selectNext {active : Option PhysAddr} {waits : List (List Arrival)} :
    ∀ {m n : Machine} {id : ProcessId}, selectNext active waits m = .done n id →
      m.deliverEvents.Calm n ∧ n.traffic.Punctual := by
  induction waits with
  | nil =>
    intro m n id h
    unfold selectNext at h
    simp only at h
    split at h
    · rename_i hs
      cases h
      exact calm_selected hs
    · cases h
  | cons wait waits ih =>
    intro m n id h
    unfold selectNext at h
    simp only at h
    split at h
    · rename_i hs
      cases h
      exact calm_selected hs
    · obtain ⟨w, u, ha, hn⟩ := Outcome.andThen_eq_done_iff.1 h
      obtain ⟨hrest, hpunctual⟩ := ih hn
      have hwait : m.settle.Timely m.settle.startWait :=
        ⟨rfl, Traffic.timely_aside (n := .idle) rfl⟩
      have hidle := (calm_wakeExpired _).trans (hwait.calm.trans (calm_arriveAll ha))
      exact ⟨hidle.trans (w.timely_deliverEvents.calm.trans hrest), hpunctual⟩

/-- A decision begins by emptying the inbox, and it looks at deadlines before it ends. -/
theorem timely_schedule_delivered {id : ProcessId} (h : m.schedule = .done n id) :
    m.suspendCurrent.deliverEvents.Timely n := by
  unfold schedule at h
  split at h
  · obtain ⟨hcalm, hpunctual⟩ := calm_selectNext h
    exact hcalm.timely hpunctual
  · cases h

theorem timely_schedule {id : ProcessId} (h : m.schedule = .done n id) : m.Timely n :=
  (m.timely_suspendCurrent.trans (timely_deliverEvents _)).trans (timely_schedule_delivered h)

/-! ### Hooks and lines -/

theorem moved_hookLine {owner : ProcessId} {line : Word} {r : Except LineError Unit}
    (ho : (m.kernel.processes.get? owner).isSome) (h : m.hookLine owner line = .done n r) :
    m.Moved (if line < m.kernel.devices.vectors.lines then .hook line owner else .nothing) n := by
  obtain ⟨p, hp⟩ := Option.isSome_iff_exists.1 ho
  refine via_withController (fun locks => ?_) h
  unfold VectorTable.hook
  by_cases hline : line < m.kernel.devices.vectors.lines
  · simp only [if_pos hline]
    exact ⟨rfl, .step (by rintro ⟨⟩) (.hooked (p := p) hp) (.refl _)⟩
  · simp only [if_neg hline]
    exact (Timely.refl _).moved

theorem timely_setLine {line : Word} {on : Bool} {r : Except LineError Unit}
    (h : m.setLine line on = .done n r) : m.Timely n := by
  refine via_withController (fun locks => ?_) h
  split
  · exact Timely.refl _
  · rename_i vectors hv
    unfold VectorTable.setEnabled at hv
    split at hv
    · cases hv
      exact ⟨rfl, Traffic.timely_aside (n := .lineSet line on) rfl⟩
    · cases hv

theorem fixed_dropHooks (m : Machine) (id : ProcessId) : (m.dropHooks id).fixed = m.fixed := by
  unfold dropHooks unhook
  simp only
  split <;> rfl

theorem traffic_dropHooks (m : Machine) (id : ProcessId) :
    (m.dropHooks id).traffic = m.traffic.unhook id := by
  unfold dropHooks unhook Traffic.unhook VectorTable.hooksOf
  simp only
  split
  · rename_i h
    rw [if_pos (by exact h)]
    rfl
  · rename_i h
    rw [if_neg (by exact h)]
    rfl

theorem fixed_dropHooksOfAll (ids : List ProcessId) :
    ∀ m : Machine, (m.dropHooksOfAll ids).fixed = m.fixed := by
  induction ids with
  | nil => exact fun _ => rfl
  | cons id rest ih => exact fun m => (ih _).trans (m.fixed_dropHooks id)

theorem traffic_dropHooksOfAll (ids : List ProcessId) :
    ∀ m : Machine, (m.dropHooksOfAll ids).traffic = m.traffic.unhookAll ids := by
  induction ids with
  | nil => exact fun _ => rfl
  | cons id rest ih =>
    intro m
    rw [dropHooksOfAll, ih, traffic_dropHooks, Traffic.unhookAll]

/-! ### Beginning and end -/

theorem Kernel.newborn_of_create {k k' : Kernel} {entry : VirtAddr} {privileged : Bool}
    {p : Process} (h : k.Creates entry privileged p k') : p.Newborn := by
  rw [h.process]
  exact ⟨rfl, rfl, rfl, rfl⟩

theorem creation_of_error {entry : VirtAddr} {privileged : Bool} {e : ProcessError}
    (h : m.create entry m.kernel.config.stackMap privileged = .error e) :
    m.kernel.creation entry privileged = .nothing := by
  unfold create at h
  unfold Kernel.creation
  cases hk : m.kernel.create entry m.kernel.config.stackMap privileged with
  | error e' => rfl
  | ok r =>
    rw [hk] at h
    cases h

theorem moved_create {entry : VirtAddr} {privileged : Bool} {p : Process}
    (h : m.create entry m.kernel.config.stackMap privileged = .ok (p, n)) :
    m.Moved (m.kernel.creation entry privileged) n := by
  unfold create at h
  split at h
  · cases h
  · rename_i k hk
    cases h
    have hdeed : m.kernel.creation entry privileged = .create p.id := by
      unfold Kernel.creation
      rw [hk]
    have hc := Kernel.creates_of_create hk
    have hprocesses : k.processes = m.kernel.processes.insert p := by rw [hc.kernel]
    have hdevices : k.devices = m.kernel.devices := by rw [hc.kernel]
    have hconfig : k.config = m.kernel.config := by rw [hc.kernel]
    have hnow : k.now? = m.kernel.now? := by
      unfold Kernel.now?
      rw [hdevices]
    rw [hdeed]
    refine ⟨?_, .created (.refl _) hc.fresh (Kernel.newborn_of_create hc)
      (?_ : (m.traffic.create p entry).Timely _)⟩
    · show (_, k.config, k.devices.inbox.queue.capacity, k.devices.vectors.lines) = _
      rw [hconfig, hdevices]
      rfl
    · show (m.traffic.create p entry).Timely
        ⟨k.now?, k.processes, k.devices.inbox, k.devices.vectors.hooks, _⟩
      rw [hprocesses, hdevices, hnow]
      exact .refl _

theorem isAside_of_mem_exitNotes {r : Registry} {id : ProcessId} {k : Note}
    (h : k ∈ r.exitNotes id) : k.isAside = true := by
  unfold Registry.exitNotes at h
  obtain ⟨p, _, rfl⟩ := List.mem_map.1 h
  rfl

theorem moved_kill {target : ProcessId} {status : Word} {c : Completion}
    (ht : (m.kernel.processes.get? target).isSome) (h : m.kill target status = .done n c) :
    m.Moved (.finish target) n := by
  unfold kill remove at h
  split at h
  · rename_i e he
    obtain ⟨p, hp⟩ := Option.isSome_iff_exists.1 ht
    unfold Kernel.remove at he
    rw [hp] at he
    cases he
  · rename_i w hw
    split at hw
    · cases hw
    · rename_i k hk
      cases hw
      obtain ⟨v, u, hv, h'⟩ := Outcome.andThen_eq_done_iff.1 h
      obtain ⟨o, id, ho, hn⟩ := Outcome.andThen_eq_done_iff.1 h'
      cases hn
      obtain ⟨p, hp, rfl⟩ := Kernel.remove_eq_ok hk
      -- The waiters are told of first, so that the end takes the process and its hooks at once.
      let noted := m.report ((m.kernel.processes.erase target).exitNotes target)
      have hnotes : m.Timely noted := timely_report fun _ => isAside_of_mem_exitNotes
      have hdrop : Via (fun s t => t = s.unhook target) _ v :=
        via_withController
          (fun locks => ⟨fixed_dropHooks _ target, traffic_dropHooks _ target⟩) hv
      have hdelivered := v.timely_suspendCurrent.trans (timely_deliverEvents _)
      have hrest := timely_schedule_delivered ho
      have hended : (noted.traffic.finish target status).Timely v.traffic := by
        have hanswered := noted.traffic.timely_deliverExit target status
        rw [hdrop.traffic]
        unfold report Kernel.removalNotes
        rw [List.reverse_append]
        exact hanswered
      exact ⟨(hrest.fixed.trans hdelivered.fixed).trans hdrop.fixed,
        .ended (p := p) hnotes.traffic hp (hended.trans hdelivered.traffic)
          (pending_deliverEvents _) hrest.traffic⟩

theorem moved_boot {entry : VirtAddr} {r : Except ProcessError ProcessId}
    (h : m.boot entry = .done n r) : m.Moved (m.kernel.creation entry true) n := by
  unfold boot at h
  split at h
  · rename_i e he
    cases h
    rw [creation_of_error he]
    exact (Timely.refl m).moved
  · rename_i p w hw
    obtain ⟨v, id, hv, hn⟩ := Outcome.andThen_eq_done_iff.1 h
    cases hn
    exact ((moved_create hw).after (timely_schedule hv)).after (timely_note rfl)

theorem moved_shutdown {count : Nat} (h : m.shutdown = .done n count) : m.Moved .release n := by
  unfold shutdown at h
  obtain ⟨w, u, hw, hn⟩ := Outcome.andThen_eq_done_iff.1 h
  cases hn
  have hdrop : Via (fun s t => t = s.unhookAll s.processes.ids) m w :=
    via_withController
      (fun locks => ⟨fixed_dropHooksOfAll _ _, traffic_dropHooksOfAll _ _⟩) hw
  have hreleased : w.releaseAll.1.traffic = m.traffic.release := by
    unfold Traffic.release
    rw [← hdrop.traffic]
    rfl
  exact ⟨hdrop.fixed, .released (.refl _) (hreleased ▸ .refl _)⟩

/-! ### Requests -/

theorem timely_replyOfLine {r : Except LineError Unit} {c : Completion}
    (h : m.replyOfLine r = .done n c) : m.Timely n := by
  obtain ⟨_, _, rfl⟩ := replyOfLine_done h
  exact Timely.refl n

theorem timely_writeOut {buffer : Word} {words : List Word} {c : Completion}
    (h : m.writeOut buffer words = .done n c) : m.Timely n := by
  unfold writeOut at h
  split at h <;> cases h
  · exact Timely.refl m
  · exact ⟨rfl, .refl _⟩

theorem timely_describeProcess {target : ProcessId} {buffer : Word} {c : Completion}
    (h : m.describeProcess target buffer = .done n c) : m.Timely n := by
  unfold describeProcess at h
  split at h
  · cases h
    exact Timely.refl m
  · exact timely_writeOut h

theorem timely_readClock {buffer : Word} {c : Completion}
    (h : m.readClock buffer = .done n c) : m.Timely n := by
  unfold readClock at h
  split at h
  · cases h
    exact Timely.refl m
  · exact timely_writeOut h

section Caller

variable {p : Process} {c : Completion}

theorem withCurrent_eq {α : Type} {next : Process → Outcome α}
    (hp : m.kernel.currentProcess? = some p) : m.withCurrent next = next p := by
  unfold withCurrent
  rw [hp]

theorem timely_waitProcess {target : ProcessId} (hp : m.kernel.currentProcess? = some p)
    (hawake : p.state ≠ .sleeping) (h : m.waitProcess p.id target = .done n c) : m.Timely n := by
  unfold waitProcess at h
  split at h
  · cases h
    exact Timely.refl m
  · rw [withCurrent_eq hp] at h
    obtain ⟨w, id, hw, hn⟩ := Outcome.andThen_eq_done_iff.1 h
    cases hn
    have hget := (currentProcess?_eq_some hp).2
    have hblocked : m.Timely (m.modifyProcess p.id (Process.waitFor target)) := by
      refine timely_modifyProcess _ fun q hq => ?_
      rw [hget] at hq
      cases hq
      exact Process.untold_of_awake rfl rfl rfl hawake (by rintro ⟨⟩)
    exact hblocked.trans (timely_schedule hw)

theorem moved_waitTimer {deadline : Instant} (hp : m.kernel.currentProcess? = some p)
    (hawake : p.state ≠ .sleeping) (h : m.waitTimer deadline = .done n c) :
    m.Moved (if m.kernel.isAhead deadline then .pause p.id else .nothing) n := by
  unfold waitTimer at h
  split at h
  · rename_i hn
    cases h
    rw [Kernel.isAhead_of_none hn]
    exact (Timely.refl m).moved
  · rename_i now hn
    rw [Kernel.isAhead_of_some hn]
    split at h
    · rename_i hreached
      cases h
      rw [hreached]
      exact (Timely.refl m).moved
    · rename_i hlater
      rw [withCurrent_eq hp] at h
      obtain ⟨w, id, hw, hdone⟩ := Outcome.andThen_eq_done_iff.1 h
      cases hdone
      have hahead := eq_false_of_ne_true hlater
      have hget := (currentProcess?_eq_some hp).2
      have hrest := timely_schedule hw
      rw [hahead]
      exact ⟨hrest.fixed, .step (by rintro ⟨⟩) (.paused hget hawake ⟨now, hn, hahead⟩) hrest.traffic⟩

/-- A request to sleep, until a deadline that lies ahead if there is one. -/
theorem moved_sleep {timer : SleepTimer} (hp : m.kernel.currentProcess? = some p)
    (hawake : p.state ≠ .sleeping)
    (hahead : ∀ deadline, timer = .until deadline → m.traffic.IsAhead deadline)
    (h : m.sleep timer = .done n c) : m.Moved (m.kernel.rest p.id) n := by
  have hget := (currentProcess?_eq_some hp).2
  unfold sleep at h
  rw [withCurrent_eq hp] at h
  unfold Kernel.rest
  rw [hget]
  cases hs : p.sleepOutcome with
  | alreadyWoken =>
    simp only [hs] at h ⊢
    cases h
    exact ⟨rfl, .step (by rintro ⟨⟩) (.spared hget hs) (.refl _)⟩
  | willSleep =>
    simp only [hs] at h ⊢
    obtain ⟨w, id, hw, hn⟩ := Outcome.andThen_eq_done_iff.1 h
    cases hn
    have hrest := timely_schedule hw
    exact ⟨hrest.fixed, .step (by rintro ⟨⟩) (.slept hget hawake hs hahead) hrest.traffic⟩

theorem moved_enterSleep {deadline : Option Instant} {target : ProcessId}
    (hp : m.kernel.currentProcess? = some p) (hawake : p.state ≠ .sleeping)
    (h : m.enterSleep deadline = .done n c) :
    m.Moved (m.kernel.deed p.id target (.enterSleep deadline)) n := by
  unfold enterSleep at h
  cases deadline with
  | none => exact moved_sleep hp hawake (by rintro _ ⟨⟩) h
  | some deadline =>
    rw [Kernel.deed_enterSleep, Kernel.nap_some]
    simp only at h
    split at h
    · rename_i hn
      cases h
      rw [Kernel.isAhead_of_none hn]
      exact (Timely.refl m).moved
    · rename_i now hn
      rw [Kernel.isAhead_of_some hn]
      split at h
      · rename_i hreached
        cases h
        rw [hreached]
        exact (Timely.refl m).moved
      · rename_i hlater
        have hahead := eq_false_of_ne_true hlater
        rw [hahead]
        refine moved_sleep hp hawake (fun d hd => ?_) h
        cases hd
        exact ⟨now, hn, hahead⟩

theorem moved_resume {target : ProcessId} (ht : (m.kernel.processes.get? target).isSome)
    (h : m.resume target = .done n c) : m.Moved (.wake target) n := by
  unfold resume at h
  split at h
  · rename_i hnone
    rw [hnone] at ht
    cases ht
  · rename_i q hq
    cases h
    exact ⟨rfl, .step (by rintro ⟨⟩) (.woken hq) (.refl _)⟩

theorem moved_spawn {entry : VirtAddr} {caller : ProcessId}
    (h : m.spawn caller entry = .done n c) : m.Moved (m.kernel.creation entry false) n := by
  unfold spawn at h
  split at h
  · rename_i e he
    cases h
    rw [creation_of_error he]
    exact (Timely.refl m).moved
  · rename_i q w hw
    cases h
    exact (moved_create hw).after
      (timely_modifyProcess _ fun _ _ => ⟨rfl, rfl, rfl, .rfl⟩)

theorem timely_setStack {caller target : ProcessId} {stack : VirtAddr}
    (h : m.setStack caller target stack = .done n c) : m.Timely n := by
  have hset : m.Timely (m.modifyProcess target (Process.setUserStack stack)) :=
    timely_modifyProcess _ fun _ _ => ⟨rfl, rfl, rfl, .rfl⟩
  unfold setStack at h
  simp only at h
  split at h <;> cases h
  · exact ⟨hset.fixed, hset.traffic⟩
  · exact hset

theorem moved_perform {target : ProcessId} {op : Operation}
    (hp : m.kernel.currentProcess? = some p) (hawake : p.state ≠ .sleeping)
    (ht : (m.kernel.processes.get? target).isSome) (h : m.perform p.id target op = .done n c) :
    m.Moved (m.kernel.deed p.id target op) n := by
  cases op with
  | spawn entry => exact moved_spawn h
  | kill status => exact moved_kill ht h
  | getId =>
    cases h
    exact (Timely.refl m).moved
  | getParent =>
    obtain ⟨q, _, hn⟩ := withCurrent_done h
    cases hn
    exact (Timely.refl m).moved
  | watchLine line =>
    obtain ⟨w, r, hw, hn⟩ := Outcome.andThen_eq_done_iff.1 h
    exact (moved_hookLine ht hw).after (timely_replyOfLine hn)
  | enableLine line =>
    obtain ⟨w, r, hw, hn⟩ := Outcome.andThen_eq_done_iff.1 h
    exact ((timely_setLine hw).trans (timely_replyOfLine hn)).moved
  | disableLine line =>
    obtain ⟨w, r, hw, hn⟩ := Outcome.andThen_eq_done_iff.1 h
    exact ((timely_setLine hw).trans (timely_replyOfLine hn)).moved
  | describeProcess buffer => exact (timely_describeProcess h).moved
  | waitProcess => exact (timely_waitProcess hp hawake h).moved
  | readClock buffer => exact (timely_readClock h).moved
  | waitTimer deadline => exact moved_waitTimer hp hawake h
  | enterSleep deadline => exact moved_enterSleep hp hawake h
  | yieldCpu =>
    obtain ⟨w, id, hw, hn⟩ := Outcome.andThen_eq_done_iff.1 h
    cases hn
    exact (timely_schedule hw).moved
  | resume => exact moved_resume ht h
  | setStack stack => exact (timely_setStack h).moved

theorem timely_completed (m : Machine) (caller : ProcessId) (c : Completion) :
    m.Timely (m.completed caller c) := by
  cases c with
  | deferred => exact Timely.refl m
  | ready r =>
    show m.Timely (m.answer caller r.encode)
    unfold answer
    split
    · exact ⟨rfl, .refl _⟩
    · exact timely_modifyProcess _ fun _ _ => ⟨rfl, rfl, rfl, .rfl⟩

theorem moved_serve (hawake : m.kernel.Awake)
    (h : m.serve m.frame.request = .done n c) : m.Moved (m.deed .request) n := by
  unfold serve at h
  obtain ⟨p, hp, h⟩ := withCurrent_done h
  split at h
  · rename_i hcode
    cases h
    rw [deed_request_of_none (by simp only [asked, hp, hcode])]
    exact (timely_note rfl).moved
  · rename_i code hcode
    obtain ⟨w, c, hw, hn⟩ := Outcome.andThen_eq_done_iff.1 h
    cases hn
    have hrefusal : w.Timely (w.noteRefusal p.id code c) := by
      unfold noteRefusal
      split
      · exact timely_note rfl
      · exact Timely.refl w
    have hasked : m.Timely
        (m.note (.requested p.id code m.frame.request.target m.frame.request.argument)) :=
      timely_note rfl
    split at hw
    · rename_i e he
      cases hw
      have he' : m.understand p.id code m.frame.request = .error e := he
      rw [deed_request_of_none (by simp only [asked, hp, hcode, he'])]
      exact (hasked.trans hrefusal).moved
    · rename_i target op hu
      have hu' : m.understand p.id code m.frame.request = .ok (target, op) := hu
      have ht := isSome_of_understand (isSome_of_currentProcess? hp) hu'
      have hdeed : m.deed .request = m.kernel.deed p.id target op :=
        deed_request hp (by simp only [asked, hp, hcode, hu'])
      rw [hdeed]
      have hmoved := moved_perform (m := m.note _) (p := p) hp (hawake hp) ht hw
      exact Moved.before hasked (hmoved.after hrefusal)

theorem moved_request {u : Unit} (hawake : m.kernel.Awake) (h : m.request = .done n u) :
    m.Moved (m.deed .request) n := by
  obtain ⟨p, w, c, _, hw, rfl⟩ := request_done h
  exact (moved_serve hawake hw).after (w.timely_completed p.id c)

end Caller

/-! ### The other ways in -/

theorem timely_timerInterrupt {b : Bool} (h : m.timerInterrupt = .done n b) : m.Timely n := by
  unfold timerInterrupt at h
  obtain ⟨w, u, hw, h⟩ := Outcome.andThen_eq_done_iff.1 h
  -- The clock has gone on, but the sleepers learn of it at once.
  have hsettled : m.Timely w.settle :=
    ((calm_tick hw).trans w.timely_settle.calm).timely (punctual_wakeExpired _)
  have hslice : w.settle.Timely w.settle.tickSlice := ⟨rfl, .refl _⟩
  simp only at h
  split at h
  · cases h
    exact hsettled
  · unfold accountTick at h
    simp only at h
    split at h
    · obtain ⟨v, id, hv, hn⟩ := Outcome.andThen_eq_done_iff.1 h
      cases hn
      exact hsettled.trans (hslice.trans (timely_schedule hv))
    · cases h
      exact hsettled.trans hslice

theorem timely_interrupt {frame : Registers} {count : Nat}
    (h : m.interrupt frame = .done n count) : m.Timely n := by
  unfold interrupt at h
  obtain ⟨w, k, hw, hn⟩ := Outcome.andThen_eq_done_iff.1 h
  cases hn
  exact (timely_dispatch hw).trans w.timely_deliverEvents

theorem moved_takeEvent (m : Machine) (id : ProcessId) :
    m.Moved (m.deed (.takeEvent id)) (m.takeEvent id).1 := by
  show m.Moved (m.deedOfTaking id) _
  unfold takeEvent deedOfTaking
  cases hp : m.kernel.processes.get? id with
  | none => exact (Timely.refl m).moved
  | some p =>
    simp only
    cases he : p.nextEvent? with
    | none => exact (Timely.refl m).moved
    | some e => exact ⟨rfl, .step (by rintro ⟨⟩) (.taken hp he) (.refl _)⟩

theorem timely_install {b : Bool} (h : m.install = .done n b) : m.Timely n := by
  refine via_withSlot (fun {locks n b} h => ?_) h
  split at h
  · cases h
    exact Timely.refl _
  · refine via_withRoute (fun {locks n b} h => ?_) h
    cases h
    exact ⟨rfl, Traffic.timely_aside (n := .installed) rfl⟩

/-- Every action is the move that its deed says. -/
theorem moved_act {a : Action} (hb : m.kernel.Bound) (h : m.act a = .done n ()) :
    m.Moved (m.deed a) n := by
  cases a with
  | compute frame memory idle =>
    cases h
    exact Timely.moved ⟨rfl, .refl _⟩
  | arrival a =>
    cases a with
    | tick =>
      have htick := calm_tickArrival h
      exact ⟨htick.fixed, .ticked htick.traffic⟩
    | interrupt vector => exact (timely_interruptArrival h).moved
  | boot entry =>
    obtain ⟨r, h⟩ := forget_done h
    exact via_withKernel moved_boot h
  | request => exact via_withKernel (moved_request hb.awake) h
  | timer =>
    obtain ⟨b, h⟩ := forget_done h
    exact Timely.moved (via_withKernel timely_timerInterrupt h)
  | interrupt frame =>
    obtain ⟨b, h⟩ := forget_done h
    exact Timely.moved (via_withKernel timely_interrupt h)
  | takeEvent id =>
    cases h
    exact m.moved_takeEvent id
  | shutdown =>
    obtain ⟨b, h⟩ := forget_done h
    exact via_withKernel moved_shutdown h
  | install =>
    obtain ⟨b, h⟩ := forget_done h
    exact (timely_install h).moved

/-- A request that is not refused at once and leaves its caller with the CPU is the operation, after
a note, and its answer. -/
theorem act_answered {p : Process} {target : ProcessId} {op : Operation} (hl : m.locks = .free)
    (hp : m.kernel.currentProcess? = some p)
    (hasked : m.asked m.frame.request = some (target, op)) :
    ∃ note, ∀ {v : Machine} {w : Word}, v.locks = .free → v.kernel.current = some p.id →
      (∀ locks, (({ m with locks } : Machine).note note).perform p.id target op =
        .done { v with locks } (.ready (.value w))) →
      m.act .request = .done { v with frame := v.frame.withResult w } () := by
  obtain ⟨p', code, hp', hcode, hu⟩ := asked_eq_some hasked
  cases hp.symm.trans hp'
  refine ⟨.requested p.id code m.frame.request.target m.frame.request.argument, ?_⟩
  intro v w hv hcurrent hop
  refine withKernel_of_locks hl hv fun locks _ => ?_
  let held : Machine := { m with locks }
  have hserve : held.serve held.frame.request = .done { v with locks } (.ready (.value w)) := by
    rw [serve_of_understood (m := held) hp hcode hu]
    have hperform : (held.note _).perform p.id target op = _ := hop locks
    rw [hperform]
    rfl
  unfold request
  rw [withCurrent_eq (m := held) hp, hserve]
  simp only [Outcome.andThen_done, answer, if_pos hcurrent, Reply.encode]

/-- What holds of the traffic of a new kernel and is kept by every move holds all the time. -/
theorem traffic_invariant {P : Traffic → Prop}
    (hstart : ∀ now capacity, P ⟨now, .empty, .new capacity, [], []⟩)
    (hmove : ∀ {s u : Traffic} {d : Deed}, P s → s.Move d u → P u) (hm : Reachable m) :
    P m.traffic := by
  induction hm with
  | start hk =>
    unfold Kernel.build at hk
    split at hk
    · cases hk
    · cases hk
      exact hstart _ _
  | act hm ha ih => exact hmove ih (moved_act (bound_of_reachable hm) ha).traffic

/-! ### What is fixed -/

/-- No lock is held between two actions, and there are as many lines and as much room in the inbox
as the configuration says. -/
theorem fixed_of_reachable (hm : Reachable m) :
    m.kernel.config.validate = .ok () ∧ m.fixed = (.free, m.kernel.config,
      max m.kernel.config.inboxCapacity.toNat 1, m.kernel.config.irqLines) := by
  induction hm with
  | start hk =>
    unfold Kernel.build at hk
    split at hk
    · cases hk
    · rename_i hvalid
      cases hk
      exact ⟨hvalid, rfl⟩
  | @act m n a hm ha ih =>
    have hfixed := (moved_act (bound_of_reachable hm) ha).fixed
    have hconfig : n.kernel.config = m.kernel.config := congrArg (fun f => f.2.1) hfixed
    rw [hfixed, hconfig]
    exact ih

theorem locks_of_reachable (hm : Reachable m) : m.locks = .free :=
  congrArg Prod.fst (fixed_of_reachable hm).2

theorem room_of_reachable (hm : Reachable m) :
    m.kernel.devices.inbox.queue.capacity = m.kernel.config.inboxCapacity.toNat := by
  obtain ⟨hvalid, hfixed⟩ := fixed_of_reachable hm
  have hroom : m.kernel.devices.inbox.queue.capacity = max m.kernel.config.inboxCapacity.toNat 1 :=
    congrArg (fun f => f.2.2.1) hfixed
  have hpos := (Config.validate_eq_ok_iff.1 hvalid).1.inboxCapacity
  rw [Ne, ← UInt64.toNat_inj] at hpos
  have : (0 : Word).toNat = 0 := rfl
  omega

end Machine
end Nucleus
