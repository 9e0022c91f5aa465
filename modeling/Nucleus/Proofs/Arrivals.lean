import Nucleus.Proofs.Entry

/-!
# Nucleus.Proofs.Arrivals

What reaches the devices past the kernel. However the ticks and interrupts of a wait come, they add
up: the clock goes on by one for each tick, the events of the interrupts are pushed into the inbox
in their order, and nothing else of the machine changes but what has been reported.

* `Inbox.pushAll`: events pushed one after the other, and how many of them find room.
* `VectorTable.raised`: the events of one trap, one for each hook of its line.
* `Machine.Heard`: what a list of arrivals does.
* `heard_arriveAll`, `arriveAll_of_free`: arrivals do just that, and with the locks of the devices
  free nothing but the clock's end can keep them from it.
-/

namespace Nucleus

/-- A clock, where there is one, goes on by so many ticks. -/
def Clock.Passed (count : Nat) : Option Clock → Option Clock → Prop :=
  Option.Rel fun c c' => c'.frequency = c.frequency ∧ c'.ticks.toNat = c.ticks.toNat + count

namespace Clock

variable {c c' c'' : Option Clock} {k k' : Nat}

theorem Passed.refl (c : Option Clock) : Passed 0 c c := by
  cases c with
  | none => exact .none
  | some c => exact .some ⟨rfl, rfl⟩

theorem Passed.trans (h : Passed k c c') (h' : Passed k' c' c'') : Passed (k + k') c c'' := by
  cases h with
  | none =>
    cases h'
    exact .none
  | some h =>
    cases h' with
    | some h' => exact .some ⟨h'.1.trans h.1, by rw [h'.2, h.2, Nat.add_assoc]⟩

/-- A clock, where there is one, can count so many ticks more. -/
def HasRoom (count : Nat) (clock : Option Clock) : Prop :=
  ∀ c, clock = some c → c.ticks.toNat + count < 0x10000000000000000

theorem hasRoom_zero (c : Option Clock) : HasRoom 0 c :=
  fun c _ => Word.toNat_lt c.ticks

/-- Ticks that have passed leave as much less room. -/
theorem Passed.hasRoom_iff (h : Passed k c c') : HasRoom k' c' ↔ HasRoom (k + k') c := by
  cases h with
  | none =>
    constructor
    · rintro - c ⟨⟩
    · rintro - c ⟨⟩
  | some h =>
    unfold HasRoom
    simp only [Option.some.injEq, forall_eq', h.2, Nat.add_assoc]

theorem HasRoom.of_le (h : HasRoom k c) (hle : k' ≤ k) : HasRoom k' c :=
  fun c hc => Nat.lt_of_le_of_lt (Nat.add_le_add_left hle _) (h c hc)

theorem advance_eq_ok {c c' : Clock} {n : Word} (h : c.advance n = .ok c') :
    c'.frequency = c.frequency ∧ c'.ticks.toNat = c.ticks.toNat + n.toNat := by
  unfold advance at h
  split at h
  · rename_i ticks hadd
    cases h
    exact ⟨rfl, Word.add?_eq_some_iff.1 hadd⟩
  · cases h

theorem exists_advance_iff {c : Clock} {n : Word} :
    (∃ c', c.advance n = .ok c') ↔ c.ticks.toNat + n.toNat < 0x10000000000000000 := by
  constructor
  · rintro ⟨c', h⟩
    rw [← (advance_eq_ok h).2]
    exact Word.toNat_lt c'.ticks
  · intro h
    unfold advance Word.add?
    rw [if_pos h]
    exact ⟨_, rfl⟩

end Clock

namespace Devices

variable {d d' : Devices}

/-- A tick of the devices is one of the clock. -/
theorem tick_eq_ok (h : d.tick = .ok d') :
    d' = { d with clock := d'.clock } ∧ Clock.Passed 1 d.clock d'.clock := by
  obtain ⟨clock, inbox, vectors⟩ := d
  cases clock with
  | none =>
    cases h
    exact ⟨rfl, .none⟩
  | some c =>
    unfold tick advance at h
    cases ha : c.advance 1 with
    | error f =>
      simp only [ha] at h
      cases h
    | ok c' =>
      simp only [ha] at h
      cases h
      exact ⟨rfl, .some (Clock.advance_eq_ok ha)⟩

theorem exists_tick_iff : (∃ d', d.tick = .ok d') ↔ Clock.HasRoom 1 d.clock := by
  unfold tick advance Clock.HasRoom
  cases d.clock with
  | none => simp
  | some c =>
    have hadvance : (∃ c', c.advance 1 = .ok c') ↔ c.ticks.toNat + 1 < 0x10000000000000000 :=
      Clock.exists_advance_iff
    simp only [Option.some.injEq, forall_eq', ← hadvance]
    cases c.advance 1 <;> simp

end Devices

/-- The events that a trap raises, one for each hook of its line. -/
def VectorTable.raised (t : VectorTable) (frame : Registers) : List (ProcessId × Event) :=
  match Inbox.eventOf? frame with
  | none => []
  | some e => (t.triggered frame).map fun h => (h.owner, e)

/-- The events of an arrival. -/
def VectorTable.heard (t : VectorTable) : Arrival → List (ProcessId × Event)
  | .tick => []
  | .interrupt vector => t.raised (.ofVector vector)

/-! ### The inbox -/

namespace Inbox

/-- The inbox after events were pushed one after the other. -/
def pushAll (i : Inbox) (events : List (ProcessId × Event)) : Inbox :=
  events.foldl (fun i item => i.push item.1 item.2) i

@[simp] theorem pushAll_nil (i : Inbox) : i.pushAll [] = i := rfl

@[simp] theorem pushAll_cons (i : Inbox) (item : ProcessId × Event)
    (rest : List (ProcessId × Event)) :
    i.pushAll (item :: rest) = (i.push item.1 item.2).pushAll rest := rfl

theorem pushAll_append (i : Inbox) (events events' : List (ProcessId × Event)) :
    i.pushAll (events ++ events') = (i.pushAll events).pushAll events' :=
  List.foldl_append

/-- A trap pushes the events it raises. -/
theorem announceAll_eq (frame : Registers) (t : VectorTable) (i : Inbox) :
    announceAll frame i (t.triggered frame) = i.pushAll (t.raised frame) := by
  unfold VectorTable.raised
  generalize t.triggered frame = hooks
  cases he : eventOf? frame with
  | none =>
    induction hooks with
    | nil => rfl
    | cons h rest ih =>
      rw [announceAll, announce, he]
      exact ih
  | some e =>
    induction hooks generalizing i with
    | nil => rfl
    | cons h rest ih =>
      rw [announceAll, ih, announce, he]
      rfl

theorem capacity_pushAll (events : List (ProcessId × Event)) :
    ∀ i : Inbox, (i.pushAll events).queue.capacity = i.queue.capacity := by
  induction events with
  | nil => exact fun _ => rfl
  | cons item rest ih => exact fun i => (ih _).trans (i.capacity_push _ _)

/-- The first events stand behind what was there, as many as there is room for; the others are
counted. -/
theorem pushAll_eq (events : List (ProcessId × Event)) :
    ∀ i : Inbox, (i.pushAll events).pending =
        i.pending ++ events.take (i.queue.capacity - i.pending.length) ∧
      (i.pushAll events).dropped =
        i.dropped + (events.length - (i.queue.capacity - i.pending.length)) := by
  induction events with
  | nil =>
    intro i
    simp
  | cons item rest ih =>
    intro i
    obtain ⟨hpending, hdropped⟩ := ih (i.push item.1 item.2)
    rw [pushAll_cons, hpending, hdropped, i.capacity_push]
    cases hroom : i.hasRoom with
    | true =>
      have hlt : i.pending.length < i.queue.capacity := of_decide_eq_true hroom
      obtain ⟨k, hk⟩ := Nat.exists_eq_add_of_lt hlt
      have hcount : (i.push item.1 item.2).dropped = i.dropped := by
        unfold push
        rw [if_pos hroom]
      rw [Traffic.pending_push hroom, hcount, List.length_append, List.length_singleton,
        List.append_assoc, List.length_cons,
        show i.queue.capacity - (i.pending.length + 1) = k by omega,
        show i.queue.capacity - i.pending.length = k + 1 by omega]
      exact ⟨rfl, by omega⟩
    | false =>
      have hfull : ¬ i.pending.length < i.queue.capacity := of_decide_eq_false hroom
      have hcount : (i.push item.1 item.2).dropped = i.dropped + 1 := by
        unfold push
        rw [if_neg (by rw [hroom]; exact Bool.false_ne_true)]
      rw [Traffic.pending_push_full hroom, hcount, List.length_cons,
        show i.queue.capacity - i.pending.length = 0 by omega]
      exact ⟨rfl, by omega⟩

theorem pending_pushAll (i : Inbox) (events : List (ProcessId × Event)) :
    (i.pushAll events).pending =
      i.pending ++ events.take (i.queue.capacity - i.pending.length) :=
  (pushAll_eq events i).1

end Inbox

/-! ### Arrivals -/

namespace Machine

variable {m n o : Machine} {a : Arrival} {as bs : List Arrival} {frame : Registers}

/-- What arrivals do: the clock goes on, events are pushed into the inbox, and something may be
reported. -/
structure Heard (m : Machine) (as : List Arrival) (n : Machine) : Prop where
  rest : n = { m with
    kernel := { m.kernel with devices := n.kernel.devices }, journal := n.journal }
  vectors : n.kernel.devices.vectors = m.kernel.devices.vectors
  inbox : n.kernel.devices.inbox =
    m.kernel.devices.inbox.pushAll (as.flatMap m.kernel.devices.vectors.heard)
  clock : Clock.Passed (as.count .tick) m.kernel.devices.clock n.kernel.devices.clock

theorem Heard.refl (m : Machine) : m.Heard [] m :=
  ⟨rfl, rfl, rfl, .refl _⟩

theorem Heard.trans (h : m.Heard as n) (h' : n.Heard bs o) : m.Heard (as ++ bs) o := by
  refine ⟨?_, h'.vectors.trans h.vectors, ?_, ?_⟩
  · rw [h'.rest, h.rest]
  · rw [h'.inbox, h.inbox, h.vectors, List.flatMap_append, Inbox.pushAll_append]
  · rw [List.count_append]
    exact h.clock.trans h'.clock

theorem Heard.locks (h : m.Heard as n) : n.locks = m.locks := by
  rw [h.rest]

theorem Heard.installed (h : m.Heard as n) : n.installed = m.installed := by
  rw [h.rest]

theorem Heard.idle (h : m.Heard as n) : n.idle = m.idle := by
  rw [h.rest]

theorem Heard.processes (h : m.Heard as n) : n.kernel.processes = m.kernel.processes := by
  rw [h.rest]

theorem Heard.scheduler (h : m.Heard as n) : n.kernel.scheduler = m.kernel.scheduler := by
  rw [h.rest]

theorem heard_announced (m : Machine) (vector : Word) :
    m.Heard [.interrupt vector] (m.announced (.ofVector vector)) := by
  refine ⟨rfl, rfl, ?_, .refl _⟩
  show Inbox.announceAll _ _ _ = _
  rw [Inbox.announceAll_eq, List.flatMap_singleton]
  rfl

theorem dispatch_done {count : Nat} (h : m.dispatch frame = .done n count) :
    n = m.announced frame := by
  obtain ⟨k, r, idle, activated, journal, ⟨slot, route, controller⟩, installed⟩ := m
  cases controller <;> cases h
  rfl

theorem heard_tick {u : Unit} (h : m.tick = .done n u) : m.Heard [.tick] n := by
  unfold tick at h
  split at h
  · cases h
  · rename_i d hd
    cases h
    obtain ⟨hrest, hclock⟩ := Devices.tick_eq_ok hd
    have hvectors : d.vectors = m.kernel.devices.vectors := by rw [hrest]
    have hinbox : d.inbox = m.kernel.devices.inbox := by rw [hrest]
    exact ⟨rfl, hvectors, hinbox, hclock⟩

/-- A lock that was free before is free again. -/
theorem withRoute_done {α : Type} {b : α} {body : Machine → Outcome α}
    (h : m.withRoute body = .done n b) : m.locks.route = false ∧
      ∃ w, body { m with locks := { m.locks with route := true } } = .done w b ∧
        n = { w with locks := { w.locks with route := false } } := by
  unfold withRoute at h
  split at h
  · cases h
  · rename_i hfree
    obtain ⟨w, b', hw, hn⟩ := Outcome.andThen_eq_done_iff.1 h
    cases hn
    exact ⟨eq_false_of_ne_true hfree, w, hw, rfl⟩

/-- What arrives by the route does what it would do without. -/
theorem Heard.routed (hroute : m.locks.route = false)
    (h : ({ m with locks := { m.locks with route := true } } : Machine).Heard as n) :
    m.Heard as { n with locks := { n.locks with route := false } } := by
  refine ⟨?_, h.vectors, h.inbox, h.clock⟩
  have hrest := h.rest
  obtain ⟨k, r, idle, activated, journal, ⟨slot, route, controller⟩, installed⟩ := m
  cases hroute
  rw [hrest]

theorem heard_arrive {u : Unit} (h : m.arrive a = .done n u) : m.Heard [a] n := by
  cases a with
  | tick =>
    simp only [arrive] at h
    split at h
    · rename_i hi
      obtain ⟨hroute, w, hw, rfl⟩ := withRoute_done h
      rw [if_pos (by exact hi)] at hw
      exact (heard_tick hw).routed hroute
    · exact heard_tick h
  | interrupt vector =>
    simp only [arrive] at h
    split at h
    · rename_i hi
      obtain ⟨hroute, w, hw, rfl⟩ := withRoute_done h
      rw [if_pos (by exact hi)] at hw
      obtain ⟨v, count, hv, hn⟩ := Outcome.andThen_eq_done_iff.1 hw
      cases hn
      rw [dispatch_done hv]
      exact (heard_announced _ vector).routed hroute
    · obtain ⟨v, count, hv, hn⟩ := Outcome.andThen_eq_done_iff.1 h
      cases hn
      rw [dispatch_done hv]
      exact heard_announced m vector

theorem heard_arriveAll {as : List Arrival} :
    ∀ {m n : Machine} {u : Unit}, m.arriveAll as = .done n u → m.Heard as n := by
  induction as with
  | nil =>
    intro m n u h
    cases h
    exact .refl m
  | cons a rest ih =>
    intro m n u h
    obtain ⟨w, u', ha, hrest⟩ := Outcome.andThen_eq_done_iff.1 h
    exact (heard_arrive ha).trans (ih hrest)

/-! ### Arrivals with the locks free -/

theorem tick_cases (m : Machine) :
    Clock.HasRoom 1 m.kernel.devices.clock ∧ (∃ n, m.tick = .done n ()) ∨
      ¬ Clock.HasRoom 1 m.kernel.devices.clock ∧ m.tick = .fault .overflow m.journal := by
  unfold tick
  rw [← Devices.exists_tick_iff]
  cases htick : m.kernel.devices.tick with
  | ok d => exact .inl ⟨⟨d, rfl⟩, _, rfl⟩
  | error f =>
    rw [overflow_of_advance htick]
    refine .inr ⟨?_, rfl⟩
    rintro ⟨d, ⟨⟩⟩

/-- With the locks of the devices free an arrival does not wait for any, and only the end of the
clock stops it. -/
theorem arrive_of_free (hroute : m.locks.route = false) (hcontroller : m.locks.controller = false)
    (a : Arrival) :
    Clock.HasRoom ([a].count .tick) m.kernel.devices.clock ∧ (∃ n, m.arrive a = .done n ()) ∨
      ¬ Clock.HasRoom ([a].count .tick) m.kernel.devices.clock ∧
        m.arrive a = .fault .overflow m.journal := by
  cases a with
  | tick =>
    unfold arrive routeTick withRoute
    simp only [hroute, Bool.false_eq_true, if_false]
    split
    · rename_i hi
      rcases tick_cases { m with locks := { m.locks with route := true } } with
        ⟨hroom, n, hn⟩ | ⟨hroom, hn⟩
      · rw [hn]
        exact .inl ⟨hroom, _, rfl⟩
      · rw [hn]
        exact .inr ⟨hroom, rfl⟩
    · exact m.tick_cases
  | interrupt vector =>
    left
    refine ⟨Clock.hasRoom_zero _, ?_⟩
    unfold arrive
    simp only
    split
    · rename_i hi
      exact ⟨_, interruptEntry_of_free hroute hcontroller hi _⟩
    · unfold dispatch withController
      rw [if_neg (by rw [hcontroller]; exact Bool.false_ne_true)]
      exact ⟨_, rfl⟩

theorem arriveAll_of_free (hroute : m.locks.route = false)
    (hcontroller : m.locks.controller = false) (as : List Arrival) :
    Clock.HasRoom (as.count .tick) m.kernel.devices.clock ∧
        (∃ n, m.arriveAll as = .done n ()) ∨
      ¬ Clock.HasRoom (as.count .tick) m.kernel.devices.clock ∧
        ∃ journal, m.arriveAll as = .fault .overflow journal := by
  induction as generalizing m with
  | nil => exact .inl ⟨Clock.hasRoom_zero _, _, rfl⟩
  | cons a rest ih =>
    rw [show a :: rest = [a] ++ rest from rfl, List.count_append]
    rcases arrive_of_free hroute hcontroller a with ⟨hroom, w, hw⟩ | ⟨hfull, hw⟩
    · have hheard := heard_arrive hw
      rw [← hheard.clock.hasRoom_iff]
      rw [show m.arriveAll ([a] ++ rest) = w.arriveAll rest by
        show (m.arrive a).andThen _ = _
        rw [hw]
        rfl]
      exact ih (by rw [hheard.locks, hroute]) (by rw [hheard.locks, hcontroller])
    · right
      refine ⟨fun h => hfull (h.of_le (Nat.le_add_right _ _)), m.journal, ?_⟩
      show (m.arrive a).andThen _ = _
      rw [hw]
      rfl

end Machine
end Nucleus
