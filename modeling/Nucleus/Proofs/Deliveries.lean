import Nucleus.Proofs.Lineage
import Nucleus.Proofs.Whereabouts

/-!
# Nucleus.Proofs.Deliveries

Events arrive once and in order. A process is followed from its creation on: what was raised for it
passes through the inbox and its queue and is taken from there, and each of the three lets things
out in the order in which they came in. So as long as nothing is refused on the way, what was taken,
what is in the queue and what is in the inbox is just what was raised, and if something was refused
the rest is still in order.

* `life`, `birth`: what was told since the creation of a process, and before it.
* `Traffic.Flows`: what is under way to a process flows on.
* `Traffic.Fed`: the balance since its creation, kept by all moves.
* `raised_dispatch`, `takings_takeEvent`: what raises events, and what takes them.
* `events_once_in_order`: all of it.
-/

namespace Nucleus

/-- What was told since the creation of the process that has the identifier. -/
def life (id : ProcessId) (j : Journal) : Journal :=
  j.takeWhile fun n => !n.creates id

/-- What had been told when the process that has the identifier was created. -/
def birth (id : ProcessId) (j : Journal) : Journal :=
  (j.dropWhile fun n => !n.creates id).tail

/-- The inbox or the queue had no room for an event for the process. -/
def Note.refuses (id : ProcessId) : Note → Bool
  | inboxFull _ owner => owner == id
  | queueFull _ owner => owner == id
  | _ => false

/-- No event for the process was refused. -/
def NoneRefused (id : ProcessId) (told : Journal) : Prop :=
  ∀ n ∈ told, n.refuses id = false

section Journal

variable {id : ProcessId} {told j : Journal}

theorem raised_append (told j : Journal) : raised (told ++ j) = raised j ++ raised told := by
  simp [raised]

theorem takings_append (told j : Journal) : takings (told ++ j) = takings j ++ takings told := by
  simp [takings]

theorem life_append (h : ∀ n ∈ told, n.creates id = false) :
    life id (told ++ j) = told ++ life id j :=
  List.takeWhile_append_of_pos fun n hn => by simp [h n hn]

theorem birth_append (h : ∀ n ∈ told, n.creates id = false) : birth id (told ++ j) = birth id j :=
  congrArg List.tail (List.dropWhile_append_of_pos fun n hn => by simp [h n hn])

theorem exists_life (id : ProcessId) (j : Journal) : ∃ past, j = life id j ++ past :=
  ⟨_, (List.takeWhile_append_dropWhile).symm⟩

end Journal

namespace Traffic

variable {s t u : Traffic} {d : Deed} {id : ProcessId}

/-- The events on their way to a process: those in its queue come before those in the inbox. -/
def underway (s : Traffic) (id : ProcessId) : List Event :=
  queueOf (s.processes.get? id) ++ eventsFor id s.inbox.pending

/-- What is under way to a process, and what is raised for it meanwhile, is taken by it in this
order or is under way still, unless something is refused. -/
def Flows (s t : Traffic) (id : ProcessId) : Prop :=
  ∃ told, t.journal = told ++ s.journal ∧ (∀ n ∈ told, n.creates id = false) ∧
    (NoneRefused id told → s.underway id ++ eventsFor id (raised told) =
      eventsFor id (takings told) ++ t.underway id)

/-- What has nothing to do with the process. -/
theorem flows_quiet (told : Journal) (hj : t.journal = told ++ s.journal)
    (hcreates : ∀ n ∈ told, n.creates id = false) (hr : raised told = [])
    (ht : takings told = []) (hinbox : t.inbox = s.inbox)
    (hqueue : queueOf (t.processes.get? id) = queueOf (s.processes.get? id)) : s.Flows t id := by
  refine ⟨told, hj, hcreates, fun _ => ?_⟩
  rw [hr, ht, underway, underway, hinbox, hqueue]
  simp [eventsFor]

theorem eventsFor_cons (id : ProcessId) (i : ProcessId × Event) (l : List (ProcessId × Event)) :
    eventsFor id (i :: l) = (if i.1 = id then [i.2] else []) ++ eventsFor id l := by
  rw [← eventsFor_singleton, ← eventsFor_append, List.singleton_append]

/-- A delivery raises nothing and takes nothing; where it is to a process and nothing is refused,
there was room. -/
theorem told_delivery (r : Registry) (owner : ProcessId) (e : Event) :
    raised (r.deliveryNotes owner e).reverse = [] ∧ takings (r.deliveryNotes owner e).reverse = [] ∧
    (∀ n ∈ (r.deliveryNotes owner e).reverse, n.creates id = false) ∧
    ∀ p, r.get? owner = some p → NoneRefused owner (r.deliveryNotes owner e).reverse →
      p.events.hasRoom = true := by
  unfold Registry.deliveryNotes
  cases hget : r.get? owner with
  | none => simp [raised, takings, Note.raised?, Note.taken?, Note.creates]
  | some p =>
    by_cases hroom : p.events.hasRoom = true
    · simp [hroom, raised, takings, Note.raised?, Note.taken?, Note.creates]
    · simp [hroom, raised, takings, Note.raised?, Note.taken?, Note.creates, NoneRefused,
        Note.refuses]

theorem flows_handed {owner : ProcessId} {e : Event} {rest : List (ProcessId × Event)}
    (hp : s.inbox.pending = (owner, e) :: rest) (hid : s.Has id) :
    s.Flows { s with
      processes := s.processes.deliver owner e
      inbox := s.inbox.dropFront
      journal := (s.processes.deliveryNotes owner e).reverse ++ s.journal } id := by
  obtain ⟨hr, ht, hcreates, hroom⟩ := told_delivery s.processes owner e
  refine ⟨_, rfl, hcreates, fun hnone => ?_⟩
  have hrest : s.inbox.dropFront.pending = rest := by
    show s.inbox.pending.tail = rest
    rw [hp]
    rfl
  have hqueue := queueOf_deliver s.processes owner e id
  rw [hr, ht, underway, underway, hqueue, hrest, hp, eventsFor_cons]
  by_cases howner : owner = id
  · subst howner
    obtain ⟨p, hget⟩ := hid
    simp [hget, hroom p hget hnone, eventsFor]
  · simp [howner, eventsFor]

theorem Step.flows (hs : s.Step d t) (hid : s.Has id) : s.Flows t id := by
  cases hs with
  | untold hr => exact flows_quiet [] rfl (by simp) rfl rfl rfl (queueOf_untold hr id)
  | @aside n hn =>
    obtain ⟨_, hr, ht, _⟩ := whereabouts_quiet [n] (by simp [isWay_aside hn]) []
    exact flows_quiet [n] rfl (by simp [creates_aside hn]) hr ht rfl rfl
  | ticked => exact flows_quiet [] rfl (by simp) rfl rfl rfl rfl
  | @announced g hg hroom =>
    refine ⟨[.announced (.interrupt g.line) g.owner], rfl, by simp [Note.creates], fun _ => ?_⟩
    have hpending := pending_push hroom g.owner (.interrupt g.line)
    show _ = _ ++ (queueOf (s.processes.get? id) ++ eventsFor id (s.inbox.push _ _).pending)
    rw [hpending, eventsFor_append]
    simp [underway, raised, takings, Note.raised?, Note.taken?, eventsFor]
  | @inboxFull g hg hroom =>
    refine ⟨[.inboxFull (.interrupt g.line) g.owner], rfl, by simp [Note.creates], fun hnone => ?_⟩
    have hother := hnone _ List.mem_cons_self
    have hpending := pending_push_full hroom g.owner (.interrupt g.line)
    show _ = _ ++ (queueOf (s.processes.get? id) ++ eventsFor id (s.inbox.push _ _).pending)
    rw [hpending]
    simp only [Note.refuses, beq_eq_false_iff_ne] at hother
    simp [underway, raised, takings, Note.raised?, Note.taken?, eventsFor, hother]
  | handed hp => exact flows_handed hp hid
  | @expired now =>
    have hr : raised ((s.processes.expiryNotes now).reverse ++ []) = raised [] :=
      read_expiryNotes (f := raised) (fun _ _ => rfl) _ _ _
    have ht : takings ((s.processes.expiryNotes now).reverse ++ []) = takings [] :=
      read_expiryNotes (f := takings) (fun _ _ => rfl) _ _ _
    rw [List.append_nil] at hr ht
    refine flows_quiet _ rfl (fun n hn => ?_) hr ht rfl ?_
    · simp only [Registry.expiryNotes, List.mem_reverse, List.mem_map] at hn
      obtain ⟨p, _, rfl⟩ := hn
      rfl
    · show queueOf ((s.processes.wakeExpired now).get? id) = _
      rw [Registry.get?_wakeExpired]
      exact queueOf_map (events_checkTimer now) _
  | @taken j p e hp he =>
    obtain ⟨rest, hitems⟩ := List.head?_eq_some_iff.1 he
    refine ⟨[.taken e j], rfl, by simp [Note.creates], fun _ => ?_⟩
    have hr : raised [.taken e j] = [] := rfl
    have ht : takings [.taken e j] = [(j, e)] := rfl
    show _ = _ ++ (queueOf ((s.processes.modify j Process.dropEvent).get? id) ++
      eventsFor id s.inbox.pending)
    rw [Registry.get?_modify, underway, hr, ht, eventsFor_singleton]
    by_cases hj : id = j
    · subst hj
      have hfirst : queueOf (s.processes.get? id) = e :: rest := by
        rw [hp]
        exact hitems
      have hafter : queueOf ((s.processes.get? id).map Process.dropEvent) = rest := by
        rw [hp]
        show p.events.items.tail = rest
        rw [show p.events.items = e :: rest from hitems]
        rfl
      rw [if_pos rfl, if_pos rfl, hfirst, hafter]
      simp [eventsFor]
    · rw [if_neg hj, if_neg fun h => hj h.symm]
      simp [eventsFor]
  | @woken j p hp =>
    refine flows_quiet [.woken j (p.state == .sleeping)] rfl (by simp [Note.creates]) rfl
      rfl rfl ?_
    exact queueOf_modify Process.id_wake events_wake _ _ _
  | @spared j p timer =>
    refine flows_quiet [.wakeupConsumed j] rfl (by simp [Note.creates]) rfl rfl rfl ?_
    exact queueOf_modify (Process.id_sleep timer) (events_sleep timer) _ _ _
  | @slept j p timer =>
    refine flows_quiet [] rfl (by simp) rfl rfl rfl ?_
    exact queueOf_modify (Process.id_sleep timer) (events_sleep timer) _ _ _
  | @paused j p deadline =>
    refine flows_quiet [] rfl (by simp) rfl rfl rfl ?_
    exact queueOf_modify (Process.id_sleepUntil deadline) (fun _ => rfl) _ _ _
  | @hooked line owner =>
    exact flows_quiet [.hooked line owner] rfl (by simp [Note.creates]) rfl rfl rfl rfl

/-- What was raised for a process since its creation, after what waited in the inbox by then, was
taken by it in this order or is under way still, unless something was refused. -/
def Fed (s : Traffic) (id : ProcessId) : Prop :=
  s.Has id → NoneRefused id (life id s.journal) →
    eventsFor id (placed .inbox (whereabouts (birth id s.journal))) ++
        eventsFor id (raised (life id s.journal)) =
      eventsFor id (takings (life id s.journal)) ++ s.underway id

theorem Fed.flows (h : s.Fed id) (hf : s.Has id → s.Flows t id) (hid : t.Has id → s.Has id) :
    t.Fed id := by
  intro hhas hnone
  obtain ⟨told, hj, hcreates, hflow⟩ := hf (hid hhas)
  rw [hj, life_append hcreates] at hnone ⊢
  rw [birth_append hcreates]
  have hbefore := h (hid hhas) fun n hn => hnone n (List.mem_append_right _ hn)
  have hafter := hflow fun n hn => hnone n (List.mem_append_left _ hn)
  rw [raised_append, takings_append, eventsFor_append, eventsFor_append, ← List.append_assoc,
    hbefore, List.append_assoc, hafter, List.append_assoc]

theorem Fed.step (h : s.Fed id) (hs : s.Step d t) : t.Fed id :=
  h.flows hs.flows (has_step hs).1

/-- A new process gets what waits for its identifier in the inbox. -/
theorem Fed.create (h : s.Fed id) (hl : s.Located) {p : Process} {entry : VirtAddr}
    (hnew : p.Newborn) : (s.create p entry).Fed id := by
  by_cases hid : p.id = id
  · subst hid
    intro _ _
    have hlife : life p.id (s.create p entry).journal = [] := by
      simp [life, Traffic.create, note, Note.creates]
    have hbirth : birth p.id (s.create p entry).journal = s.journal := by
      simp [birth, Traffic.create, note, Note.creates]
    rw [hlife, hbirth, hl.inbox, underway, get?_create, if_pos rfl]
    show _ = _ ++ (p.events.items ++ _)
    rw [hnew.events]
    simp [raised, takings, eventsFor, Traffic.create, note]
  · have hother : (s.create p entry).processes.get? id = s.processes.get? id := by
      rw [get?_create, if_neg hid]
    refine h.flows (fun _ => ?_) fun hhas => hhas.imp fun q hq => hother ▸ hq
    exact flows_quiet [.created p.id entry p.space] rfl (by simp [Note.creates, hid]) rfl rfl rfl
      (congrArg queueOf hother)

theorem Fed.finish (h : s.Fed id) (j : ProcessId) (status : Word) : (s.finish j status).Fed id := by
  by_cases hid : id = j
  · subst hid
    exact fun hhas => absurd hhas (not_has_ended .refl)
  · have hother : (s.finish j status).processes.get? id = s.processes.get? id := by
      rw [get?_finish, if_neg hid]
    refine h.flows (fun _ => ?_) fun hhas => hhas.imp fun q hq => hother ▸ hq
    have hinbox : (s.finish j status).inbox = s.inbox := inbox_unhook _ j
    have hqueue := congrArg queueOf hother
    rcases journal_unhook ((s.erase j).note (.terminated j status)) j with hj | ⟨count, hj⟩
    · exact flows_quiet [.terminated j status] hj (by simp [Note.creates]) rfl rfl hinbox hqueue
    · exact flows_quiet [.unhooked count j, .terminated j status] hj (by simp [Note.creates])
        rfl rfl hinbox hqueue

theorem fed_release (s : Traffic) (id : ProcessId) : s.release.Fed id :=
  fun hhas => absurd hhas (not_has_released .refl)

theorem fed_move (hm : s.Move d u) (h : s.Located ∧ ∀ id, s.Fed id) :
    u.Located ∧ ∀ id, u.Fed id := by
  refine hm.invariant (P := fun s => s.Located ∧ ∀ id, s.Fed id) ?_ ?_ ?_ ?_ h
  · intro s t d h hs
    exact ⟨h.1.step hs, fun id => (h.2 id).step hs⟩
  · intro s p entry h hfree hnew
    exact ⟨h.1.create hfree hnew, fun id => (h.2 id).create h.1 hnew⟩
  · intro s j status h
    exact ⟨h.1.finish j status, fun id => (h.2 id).finish j status⟩
  · intro s h
    exact ⟨h.1.release, fun id => s.fed_release id⟩

end Traffic

namespace Machine

variable {m n : Machine} {id : ProcessId}

theorem fed_of_reachable (hm : Reachable m) : m.traffic.Located ∧ ∀ id, m.traffic.Fed id := by
  refine traffic_invariant (fun now capacity => ⟨?_, fun id => ?_⟩)
    (fun h hm => Traffic.fed_move hm h) hm
  · exact Traffic.located_start now capacity
  · rintro ⟨q, hq⟩
    cases hq

/-! ### What raises events, and what takes them -/

theorem raised_announceAllNotes {frame : Registers} {line : UInt32}
    (hline : frame.line? = some line) {hooks : List Hook} :
    ∀ i : Inbox, (∀ g ∈ hooks, g.line = line.toUInt64) →
      (Inbox.announceAllNotes frame i hooks).filterMap Note.raised? =
        hooks.map fun g => (g.owner, .interrupt g.line) := by
  have hevent : Inbox.eventOf? frame = some (.interrupt line.toUInt64) := by
    unfold Inbox.eventOf?
    rw [hline]
  induction hooks with
  | nil => exact fun _ _ => rfl
  | cons g rest ih =>
    intro i hall
    have hfirst : (i.announceNotes frame g.owner).filterMap Note.raised? =
        [(g.owner, .interrupt g.line)] := by
      unfold Inbox.announceNotes
      rw [hevent, hall g List.mem_cons_self]
      cases hroom : i.hasRoom <;> simp [Note.raised?]
    rw [Inbox.announceAllNotes, List.filterMap_append, hfirst,
      ih _ fun h hh => hall h (List.mem_cons_of_mem g hh)]
    rfl

/-- A trap raises one event for each hook of its line, in the order of their registration. -/
theorem raised_dispatch {frame : Registers} {count : Nat} (h : m.dispatch frame = .done n count) :
    raised n.journal = raised m.journal ++
      (m.kernel.devices.vectors.triggered frame).map fun g => (g.owner, .interrupt g.line) := by
  unfold dispatch withController at h
  split at h
  · cases h
  · cases h
    show raised ((Inbox.announceAllNotes frame m.kernel.devices.inbox
      (m.kernel.devices.vectors.triggered frame)).reverse ++ m.journal) = _
    rw [raised_append]
    congr 1
    unfold VectorTable.triggered raised
    rw [List.filterMap_reverse, List.reverse_reverse]
    cases hline : frame.line? with
    | none => rfl
    | some line =>
      exact raised_announceAllNotes hline _ fun g hg => eq_of_beq (List.mem_filter.1 hg).2

/-- An event is discarded on delivery if its owner does not exist or has no room. -/
theorem discards_deliveryNotes (r : Registry) (owner : ProcessId) (e : Event) :
    discards (r.deliveryNotes owner e).reverse =
      if (r.get? owner).any (fun p => p.events.hasRoom) then [] else [(owner, e)] := by
  unfold Registry.deliveryNotes
  cases r.get? owner with
  | none => rfl
  | some p =>
    rw [Option.any_some]
    by_cases hroom : p.events.hasRoom = true
    · simp only [if_pos hroom]
      rfl
    · simp only [if_neg hroom]
      rfl

/-- What a process takes is the oldest event in its queue. -/
theorem takings_takeEvent (m : Machine) (id : ProcessId) :
    (m.takeEvent id).2 = (queueOf (m.kernel.processes.get? id)).head? ∧
      takings (m.takeEvent id).1.journal =
        takings m.journal ++ ((m.takeEvent id).2.map fun e => (id, e)).toList := by
  unfold takeEvent
  cases hp : m.kernel.processes.get? id with
  | none => exact ⟨rfl, (List.append_nil _).symm⟩
  | some p =>
    simp only
    cases he : p.nextEvent? with
    | none => exact ⟨he.symm, (List.append_nil _).symm⟩
    | some e => exact ⟨he.symm, takings_append [.taken e id] m.journal⟩

/-- Events arrive once and in order. Each event that was raised is in one place, and all that were
raised are found in this way. Those in the inbox and in the queue of a process are the ones that the
machine has there; those that were taken and discarded are the ones of which that was told; those
that were dropped have been counted; and the others were destroyed in the queue of a process that
does not exist any more. In every place they keep the order in which they were raised. What a
process took and what is still in its queue was raised for its identifier in this order; and if
nothing was refused since its creation, this and what is in the inbox for it is just what was raised
for it since then, after what was in the inbox before. A trap raises an event for each hook of its
line, in the order of the registrations, and whoever takes an event takes the oldest one. -/
theorem events_once_in_order (hm : Reachable m) :
    ((whereabouts m.journal).map Parcel.item = raised m.journal ∧
      (placed .dropped (whereabouts m.journal)).length = m.kernel.devices.inbox.dropped ∧
      placed .inbox (whereabouts m.journal) = m.kernel.devices.inbox.pending ∧
      (∀ id, eventsFor id (placed .queue (whereabouts m.journal)) =
        queueOf (m.kernel.processes.get? id)) ∧
      (∀ id, eventsFor id (placed .taken (whereabouts m.journal)) =
        eventsFor id (takings m.journal)) ∧
      placed .discarded (whereabouts m.journal) = discards m.journal ∧
      ∀ x ∈ whereabouts m.journal, x.place = .destroyed → ∃ n ∈ m.journal, n.ends x.owner = true) ∧
    (∀ id p, m.kernel.processes.get? id = some p →
      (eventsFor id (takings (life id m.journal)) ++ p.events.items).Sublist
        (eventsFor id (raised m.journal)) ∧
      (NoneRefused id (life id m.journal) →
        eventsFor id (placed .inbox (whereabouts (birth id m.journal))) ++
            eventsFor id (raised (life id m.journal)) =
          eventsFor id (takings (life id m.journal)) ++ p.events.items ++
            eventsFor id m.kernel.devices.inbox.pending)) ∧
    m.kernel.devices.vectors.hooks = (registrations m.journal).map Registration.hook ∧
    (∀ (w n : Machine) frame count, w.dispatch frame = .done n count →
      raised n.journal = raised w.journal ++
        (w.kernel.devices.vectors.triggered frame).map fun g => (g.owner, .interrupt g.line)) ∧
    (∀ (r : Registry) owner e, discards (r.deliveryNotes owner e).reverse =
      if (r.get? owner).any (fun p => p.events.hasRoom) then [] else [(owner, e)]) ∧
    ∀ (w : Machine) id, (w.takeEvent id).2 = (queueOf (w.kernel.processes.get? id)).head? ∧
      takings (w.takeEvent id).1.journal =
        takings w.journal ++ ((w.takeEvent id).2.map fun e => (id, e)).toList := by
  obtain ⟨hl, hfed⟩ := fed_of_reachable hm
  refine ⟨⟨hl.items, hl.dropped, hl.inbox, hl.queue, hl.taken, hl.discarded,
    fun x hx hp => ended_of_destroyed hx hp⟩, fun id p hp => ⟨?_, fun hnone => ?_⟩,
    (settled_of_reachable hm).sound.hooks, fun w n frame count => raised_dispatch,
    discards_deliveryNotes, takings_takeEvent⟩
  · have hsublist := hl.sublist_raised id
    obtain ⟨past, hpast⟩ := exists_life id m.journal
    have htakings : takings m.journal = takings past ++ takings (life id m.journal) := by
      rw [← takings_append, ← hpast]
    rw [show m.traffic.processes.get? id = some p from hp] at hsublist
    replace hsublist : (eventsFor id (takings m.journal) ++ p.events.items).Sublist
      (eventsFor id (raised m.journal)) := hsublist
    rw [htakings, eventsFor_append, List.append_assoc] at hsublist
    exact (List.sublist_append_right _ _).trans hsublist
  · have hbalance := hfed id ⟨p, hp⟩ hnone
    rw [Traffic.underway, show m.traffic.processes.get? id = some p from hp,
      ← List.append_assoc] at hbalance
    exact hbalance

/-- The first process watches line 1, which traps three times, the last time while nobody looks. -/
def threeTraps : List Action :=
  .boot trialEntry :: calls 0 .watchLine 1 ++ [.interrupt (.ofVector 33), .interrupt (.ofVector 33),
    .takeEvent 1, .arrival (.interrupt 33)]

/-- One event is taken, one is in the queue and one in the inbox. -/
theorem events_once_in_order_traps : ∃ m p, trial threeTraps = .done m () ∧
    m.kernel.processes.get? 1 = some p ∧ NoneRefused 1 (life 1 m.journal) ∧
    eventsFor 1 (takings (life 1 m.journal)) = [.interrupt 1] ∧
    p.events.items = [.interrupt 1] ∧
    eventsFor 1 m.kernel.devices.inbox.pending = [.interrupt 1] ∧
    eventsFor 1 (raised (life 1 m.journal)) = [.interrupt 1, .interrupt 1, .interrupt 1] := by
  obtain ⟨m, hm, hcheck⟩ := Outcome.exists_of_endsIn (trial threeTraps)
    (fun m => (m.kernel.processes.get? 1).any (fun p => p.events.items == [.interrupt 1]) &&
      (life 1 m.journal).all (fun n => !n.refuses 1) &&
      eventsFor 1 (takings (life 1 m.journal)) == [.interrupt 1] &&
      eventsFor 1 m.kernel.devices.inbox.pending == [.interrupt 1] &&
      eventsFor 1 (placed .inbox (whereabouts (birth 1 m.journal))) == [])
    (by decide +kernel)
  simp only [Bool.and_eq_true, Option.any_eq_true, List.all_eq_true, Bool.not_eq_true',
    beq_iff_eq] at hcheck
  obtain ⟨⟨⟨⟨⟨p, hp, hqueue⟩, hnone⟩, htaken⟩, hinbox⟩, hinherited⟩ := hcheck
  obtain ⟨_, harrived, _⟩ := events_once_in_order (.trial hm)
  obtain ⟨_, hbalance⟩ := harrived 1 p hp
  have hraised := hbalance hnone
  rw [hinherited, htaken, hqueue, hinbox] at hraised
  exact ⟨m, p, hm, hp, hnone, htaken, hqueue, hinbox, hraised⟩

end Machine
end Nucleus
