import Nucleus.Proofs.Binding
import Nucleus.Proofs.Provenance

/-!
# Nucleus.Proofs.Watchers

Whom an interrupt wakes. All hooks of the line announce it before anything is delivered, one after
the other, and each announcement takes room in the inbox. So an interrupt that finds the inbox empty
reaches the owners of as many hooks as the inbox has room for, in the order of their registration,
and the owners of the others hear nothing of it.

* `Traffic.Attentive`: who watches a line has a hook on it for as long as it exists.
* `pending_announceAll`: which announcements find room.
* `interrupt_wakes`: a sleeping watcher is woken exactly if one of its hooks found room.
-/

namespace Nucleus

/-! ### Watchers keep their hooks -/

theorem watched_aside {n : Note} (h : n.isAside = true) (line : Word) (id : ProcessId)
    (past : Journal) : watched line id (n :: past) = watched line id past := by
  cases n <;> first | rfl | cases h

namespace Traffic

/-- A process has a hook on each line it watches. -/
def Attentive (s : Traffic) : Prop :=
  ∀ id line, s.Has id → watched line id s.journal = true → ⟨line, id⟩ ∈ s.hooks

variable {s t u : Traffic} {d : Deed} {id : ProcessId} {line : Word}

theorem Attentive.step (h : s.Attentive) (hs : s.Step d t) : t.Attentive := by
  intro id line hid hw
  have hpast := (has_step hs).1 hid
  cases hs with
  | @aside n hn =>
    refine h id _ hpast ?_
    rw [← watched_aside hn]
    exact hw
  | @handed owner e rest hp =>
    refine h id _ hpast ?_
    replace hw : watched line id ((s.processes.deliveryNotes owner e).reverse ++ s.journal) =
      true := hw
    unfold Registry.deliveryNotes at hw
    split at hw
    · exact hw
    · split at hw <;> exact hw
  | @expired now =>
    refine h id _ hpast ?_
    replace hw : watched line id ((s.processes.expiryNotes now).reverse ++ s.journal) = true := hw
    rw [read_expiryNotes (f := watched line id) fun _ _ => rfl] at hw
    exact hw
  | @hooked l owner p hp =>
    replace hw : (l == line && owner == id || watched line id s.journal) = true := hw
    rcases Bool.or_eq_true_iff.1 hw with hnew | hold
    · simp only [Bool.and_eq_true, beq_iff_eq] at hnew
      obtain ⟨rfl, rfl⟩ := hnew
      exact List.mem_append_right _ List.mem_cons_self
    · exact List.mem_append_left _ (h id line hpast hold)
  | _ => exact h id line hpast hw

theorem Attentive.create (h : s.Attentive) {p : Process} {entry : VirtAddr} :
    (s.create p entry).Attentive := by
  rintro id line ⟨q, hq⟩ hw
  replace hw : (if p.id = id then false else watched line id s.journal) = true := hw
  replace hq : (s.processes.insert p).get? id = some q := hq
  rw [Registry.get?_insert] at hq
  split at hw
  · cases hw
  · rename_i hne
    rw [if_neg hne] at hq
    exact h id line ⟨q, hq⟩ hw

theorem Attentive.finish (h : s.Attentive) (id : ProcessId) (status : Word) :
    (s.finish id status).Attentive := by
  rintro j line ⟨q, hq⟩ hw
  rw [get?_finish] at hq
  split at hq
  · cases hq
  · rename_i hne
    have hold : watched line j s.journal = true := by
      unfold Traffic.finish unhook at hw
      simp only at hw
      split at hw <;> exact hw
    rw [hooks_finish]
    exact List.mem_filter.2 ⟨h j line ⟨q, hq⟩ hold, bne_iff_ne.2 hne⟩

theorem attentive_release (s : Traffic) : s.release.Attentive := by
  rintro id line ⟨q, hq⟩ _
  replace hq : Registry.empty.get? id = some q := hq
  rw [Registry.get?_empty] at hq
  cases hq

theorem Attentive.move (h : s.Attentive) (hm : s.Move d u) : u.Attentive :=
  hm.invariant Attentive.step (fun h _ _ => h.create) (fun id status h => h.finish id status)
    (fun {s} _ => attentive_release s) h

end Traffic

/-! ### Announcements that find room -/

/-- The announcements that still have room stand behind the others, in their order. -/
theorem Inbox.pending_announceAll {frame : Registers} {e : Event} (he : eventOf? frame = some e)
    (hooks : List Hook) :
    ∀ i : Inbox, (announceAll frame i hooks).pending = i.pending ++
      (hooks.map fun h => (h.owner, e)).take (i.queue.capacity - i.pending.length) := by
  induction hooks with
  | nil =>
    intro i
    simp [announceAll]
  | cons h rest ih =>
    intro i
    have hfirst : i.announce frame h.owner = i.push h.owner e := by
      unfold announce
      rw [he]
    rw [announceAll, ih, hfirst, i.capacity_push]
    cases hroom : i.hasRoom with
    | true =>
      have hlt : i.pending.length < i.queue.capacity := of_decide_eq_true hroom
      obtain ⟨k, hk⟩ := Nat.exists_eq_add_of_lt hlt
      rw [Traffic.pending_push hroom, List.length_append, List.length_singleton, List.append_assoc,
        show i.queue.capacity - (i.pending.length + 1) = k by omega,
        show i.queue.capacity - i.pending.length = k + 1 by omega]
      rfl
    | false =>
      have hfull : ¬ i.pending.length < i.queue.capacity := of_decide_eq_false hroom
      rw [Traffic.pending_push_full hroom, show i.queue.capacity - i.pending.length = 0 by omega]
      rfl

/-! ### Deliveries -/

namespace Registry

variable {r : Registry} {id : ProcessId} {p : Process} {items : List (ProcessId × Event)}

/-- Events for others leave a process alone. -/
theorem get?_deliverAll_of_ne (h : ∀ item ∈ items, item.1 ≠ id) :
    ∀ r : Registry, (r.deliverAll items).get? id = r.get? id := by
  induction items with
  | nil => exact fun _ => rfl
  | cons item rest ih =>
    intro r
    rw [deliverAll, ih fun item' hitem => h item' (List.mem_cons_of_mem _ hitem), deliver,
      get?_modify, if_neg (h item List.mem_cons_self).symm]

/-- The first event for a sleeping process wakes it, and no other one puts it to sleep again. -/
theorem ready_deliverAll (h : ∃ item ∈ items, item.1 = id) :
    ∀ {r : Registry} {p : Process}, r.get? id = some p → p.state = .sleeping →
      ∃ q, (r.deliverAll items).get? id = some q ∧ q.state = .ready := by
  induction items with
  | nil =>
    obtain ⟨item, hitem, _⟩ := h
    cases hitem
  | cons item rest ih =>
    intro r p hp hs
    by_cases hid : item.1 = id
    · have hwoken : (p.receive item.2).state = .ready := by
        unfold Process.receive Process.wake
        rw [if_pos (by exact hs)]
      have hget : (r.deliver item.1 item.2).get? id = some (p.receive item.2) := by
        rw [deliver, get?_modify, if_pos hid.symm, hp]
        rfl
      obtain ⟨q, hq, hroused⟩ := (roused_deliverAll rest _).forth hget
      refine ⟨q, hq, (hroused.state_eq ?_).trans hwoken⟩
      rw [hwoken]
      intro e
      cases e
    · have hget : (r.deliver item.1 item.2).get? id = some p := by
        rw [deliver, get?_modify, if_neg fun e => hid e.symm, hp]
      obtain ⟨item', hitem, hid'⟩ := h
      rcases List.mem_cons.1 hitem with rfl | hitem
      · exact absurd hid' hid
      · exact ih ⟨item', hitem, hid'⟩ hget hs

end Registry

namespace Machine

variable {m n : Machine} {id : ProcessId} {line : Word}

theorem attentive_of_reachable (hm : Reachable m) : m.traffic.Attentive := by
  refine traffic_invariant (fun now capacity id line _ hw => ?_) Traffic.Attentive.move hm
  cases hw

/-- The machine when a trap was announced to all hooks of its line. -/
def announced (m : Machine) (frame : Registers) : Machine :=
  (m.setDevices (m.kernel.devices.dispatch frame)).report (m.kernel.devices.dispatchNotes frame)

theorem interrupt_of_free (hl : m.locks.controller = false) (frame : Registers) :
    m.interrupt frame = .done (m.announced frame).deliverEvents
      (m.kernel.devices.vectors.triggered frame).length := by
  obtain ⟨k, r, idle, activated, journal, ⟨slot, route, controller⟩, installed⟩ := m
  cases hl
  rfl

theorem withKernel_interrupt (hl : m.locks = .free) (frame : Registers) :
    m.withKernel (fun m => m.interrupt frame) = .done (m.announced frame).deliverEvents
      (m.kernel.devices.vectors.triggered frame).length :=
  withKernel_of_locks hl hl fun locks hfree =>
    interrupt_of_free (m := { m with locks }) hfree frame

theorem act_interrupt (hm : Reachable m) (frame : Registers) :
    m.act (.interrupt frame) = .done (m.announced frame).deliverEvents () := by
  unfold act
  simp only
  rw [withKernel_interrupt (locks_of_reachable hm)]
  rfl

theorem line?_eq_some {frame : Registers} (hframe : frame.vector.toNat = 32 + line.toNat) :
    frame.line? = some line.toUInt32 := by
  have hdistance : Word.sub? frame.vector Registers.firstLineVector = some line :=
    Word.sub?_eq_some_iff.2 hframe.symm
  unfold Registers.line?
  rw [hdistance]

theorem toUInt64_toUInt32 (hline : line.toNat < 0x100000000) :
    line.toUInt32.toUInt64 = line := by
  rw [← UInt64.toNat_inj]
  simp
  omega

/-- The process finds itself ready if one of the first hooks on the line is its own, as many as the
inbox has room for, and as it was otherwise. -/
theorem interrupted (hm : Reachable m) (hempty : m.kernel.devices.inbox.pending = [])
    {frame : Registers} {p : Process} (hline : line.toNat < 0x100000000)
    (hframe : frame.vector.toNat = 32 + line.toNat) (hp : m.kernel.processes.get? id = some p)
    (hs : p.state = .sleeping) :
    ∃ q, (m.announced frame).deliverEvents.kernel.processes.get? id = some q ∧
      ((∃ h ∈ (m.kernel.devices.vectors.hooksOn line).take m.kernel.config.inboxCapacity.toNat,
          h.owner = id) → q.state = .ready) ∧
      ((∀ h ∈ (m.kernel.devices.vectors.hooksOn line).take m.kernel.config.inboxCapacity.toNat,
          h.owner ≠ id) → q = p) := by
  have hnumber := line?_eq_some hframe
  have hevent : Inbox.eventOf? frame = some (.interrupt line) := by
    unfold Inbox.eventOf?
    rw [hnumber]
    simp only
    rw [toUInt64_toUInt32 hline]
  have htriggered : m.kernel.devices.vectors.triggered frame =
      m.kernel.devices.vectors.hooksOn line := by
    unfold VectorTable.triggered
    rw [hnumber]
    simp only
    rw [toUInt64_toUInt32 hline]
  have hpending : (m.announced frame).kernel.devices.inbox.pending =
      ((m.kernel.devices.vectors.hooksOn line).take m.kernel.config.inboxCapacity.toNat).map
        fun h => (h.owner, .interrupt line) := by
    show (Inbox.announceAll frame m.kernel.devices.inbox _).pending = _
    rw [Inbox.pending_announceAll hevent, hempty, htriggered, room_of_reachable hm, List.map_take]
    rfl
  show ∃ q, (m.kernel.processes.deliverAll _).get? id = some q ∧ _
  rw [hpending]
  by_cases hfirst : ∃ h ∈ (m.kernel.devices.vectors.hooksOn line).take
      m.kernel.config.inboxCapacity.toNat, h.owner = id
  · obtain ⟨h, hh, hid⟩ := hfirst
    have hitem := List.mem_map_of_mem (f := fun h : Hook => (h.owner, Event.interrupt line)) hh
    obtain ⟨q, hq, hready⟩ := Registry.ready_deliverAll ⟨_, hitem, hid⟩ hp hs
    exact ⟨q, hq, fun _ => hready, fun hnone => absurd hid (hnone h hh)⟩
  · refine ⟨p, ?_, fun hsome => absurd hsome hfirst, fun _ => rfl⟩
    rw [Registry.get?_deliverAll_of_ne, hp]
    intro item hitem hid
    obtain ⟨h, hh, rfl⟩ := List.mem_map.1 hitem
    exact hfirst ⟨h, hh, hid⟩

/-- An interrupt that finds the inbox empty wakes a sleeping watcher of its line exactly if one of
the watcher's hooks is among the first ones on the line, as many as the inbox has room for. So it
wakes all sleeping watchers as long as the line has no more hooks than that. -/
theorem interrupt_wakes (hm : Reachable m) (hempty : m.kernel.devices.inbox.pending = [])
    {frame : Registers} {p : Process} (hline : line.toNat < 0x100000000)
    (hframe : frame.vector.toNat = 32 + line.toNat) (hp : m.kernel.processes.get? id = some p)
    (hs : p.state = .sleeping) (hw : watched line id m.journal = true) :
    ∃ n q, m.act (.interrupt frame) = .done n () ∧ n.kernel.processes.get? id = some q ∧
      ((∃ h ∈ (m.kernel.devices.vectors.hooksOn line).take m.kernel.config.inboxCapacity.toNat,
          h.owner = id) → q.state = .ready) ∧
      ((∀ h ∈ (m.kernel.devices.vectors.hooksOn line).take m.kernel.config.inboxCapacity.toNat,
          h.owner ≠ id) → q = p) ∧
      ((m.kernel.devices.vectors.hooksOn line).length ≤ m.kernel.config.inboxCapacity.toNat →
        q.state = .ready) := by
  obtain ⟨q, hq, hready, hsame⟩ := interrupted hm hempty hline hframe hp hs
  refine ⟨_, q, act_interrupt hm frame, hq, hready, hsame, fun hroom => hready ?_⟩
  rw [List.take_of_length_le hroom]
  have hhook : ⟨line, id⟩ ∈ m.kernel.devices.vectors.hooks :=
    attentive_of_reachable hm id line ⟨p, hp⟩ hw
  exact ⟨_, List.mem_filter.2 ⟨hhook, beq_self_eq_true line⟩, rfl⟩

/-- A kernel of other sizes does the actions in a list. -/
def trialOf (config : Config) (as : List Action) : Outcome Unit :=
  match Kernel.build config trialFrames true with
  | .error _ => .fault .overflow []
  | .ok kernel => (start kernel).acts as

theorem reachable_trialOf {config : Config} {as : List Action}
    (h : trialOf config as = .done m ()) : Reachable m := by
  unfold trialOf at h
  split at h
  · cases h
  · rename_i kernel hk
    exact (Reachable.start hk).acts h

/-- Two processes watch line 1, the first one before the second one, which sleeps. -/
def twoWatchers : List Action :=
  .boot trialEntry :: calls 0 .spawn 0x2000 ++ calls 0 .watchLine 1 ++ calls 2 .watchLine 1 ++
    calls 0 .yieldCpu 0 ++ calls 0 .enterSleep 0

theorem interrupt_wakes_second : ∃ m n q, trial twoWatchers = .done m () ∧
    m.act (.interrupt (.ofVector 33)) = .done n () ∧ n.kernel.processes.get? 2 = some q ∧
    q.state = .ready := by
  obtain ⟨m, hm, hcheck⟩ := Outcome.exists_of_endsIn (trial twoWatchers)
    (fun m => m.kernel.devices.inbox.pending == [] && watched 1 2 m.journal &&
      (m.kernel.processes.get? 2).any (fun p => p.state == .sleeping) &&
      decide ((m.kernel.devices.vectors.hooksOn 1).length ≤ m.kernel.config.inboxCapacity.toNat))
    (by decide +kernel)
  simp only [Bool.and_eq_true, Option.any_eq_true, beq_iff_eq, decide_eq_true_eq] at hcheck
  obtain ⟨⟨⟨hempty, hw⟩, p, hp, hs⟩, hroom⟩ := hcheck
  have hframe : (Registers.ofVector 33).vector.toNat = 32 + (1 : Word).toNat := rfl
  obtain ⟨n, q, hn, hq, _, _, hready⟩ :=
    interrupt_wakes (.trial hm) hempty (by decide) hframe hp hs hw
  exact ⟨m, n, q, hm, hn, hq, hready hroom⟩

/-- Where the inbox has room for one event only, the first watcher's leaves none for the second. -/
theorem interrupt_misses_second : ∃ m n p q,
    trialOf { Config.standard with inboxCapacity := 1 } twoWatchers = .done m () ∧ Reachable m ∧
    m.kernel.devices.inbox.pending = [] ∧ watched 1 2 m.journal = true ∧
    m.kernel.processes.get? 2 = some p ∧ p.state = .sleeping ∧
    m.act (.interrupt (.ofVector 33)) = .done n () ∧ n.kernel.processes.get? 2 = some q ∧
    q.state = .sleeping := by
  obtain ⟨m, hm, hcheck⟩ := Outcome.exists_of_endsIn
    (trialOf { Config.standard with inboxCapacity := 1 } twoWatchers)
    (fun m => m.kernel.devices.inbox.pending == [] && watched 1 2 m.journal &&
      (m.kernel.processes.get? 2).any (fun p => p.state == .sleeping) &&
      (m.act (.interrupt (.ofVector 33))).endsIn fun n =>
        (n.kernel.processes.get? 2).any fun p => p.state == .sleeping)
    (by decide +kernel)
  simp only [Bool.and_eq_true, Option.any_eq_true, beq_iff_eq] at hcheck
  obtain ⟨⟨⟨hempty, hw⟩, p, hp, hs⟩, hends⟩ := hcheck
  obtain ⟨n, hn, hsleeps⟩ := Outcome.exists_of_endsIn _ _ hends
  simp only [Option.any_eq_true, beq_iff_eq] at hsleeps
  obtain ⟨q, hq, hs'⟩ := hsleeps
  exact ⟨m, n, p, q, hm, reachable_trialOf hm, hempty, hw, hp, hs, hn, hq, hs'⟩

end Machine
end Nucleus
