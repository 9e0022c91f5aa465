import Nucleus.Proofs.History
import Nucleus.Proofs.Moved

/-!
# Nucleus.Proofs.Provenance

Where an event comes from. The inbox, the hooks and the queues of a machine are what its journal
tells, and that is lawful (`Traffic.Sound`). A process is only created where nothing is under way
for an earlier one with its identifier (`Traffic.Settled`): a process that ends takes its hooks with
it, and the inbox is emptied before another one can be created. The release of all processes is an
exception, for it leaves the inbox as it is.

* `settled_of_reachable`: both hold between two actions.
* `delivered_from_hook`: who gets an event, and through which hook.
* `delivered_after_release`: what the exception comes to.
-/

namespace Nucleus

namespace Traffic

/-- The inbox, the hooks and the queues are what was told, and that is lawful. -/
structure Sound (s : Traffic) : Prop where
  pending : s.inbox.pending = (announcements s.journal).map fun a => (a.owner, a.event)
  hooks : s.hooks = (registrations s.journal).map Registration.hook
  queues : ∀ {id p}, s.processes.get? id = some p → p.events.items = queued id s.journal
  lawful : Lawful s.journal

/-- There is a process with the identifier. -/
def Has (s : Traffic) (id : ProcessId) : Prop :=
  ∃ p, s.processes.get? id = some p

def HooksOwned (s : Traffic) : Prop :=
  ∀ h ∈ s.hooks, s.Has h.owner

/-- What waits in the inbox is for processes that exist, or from before the last release. -/
def PendingOwned (s : Traffic) : Prop :=
  ∀ a ∈ announcements s.journal, s.Has a.owner ∨ releases a.past < releases s.journal

variable {s t u : Traffic} {d : Deed} {id : ProcessId}

theorem pending_push {i : Inbox} (h : i.hasRoom = true) (owner : ProcessId) (e : Event) :
    (i.push owner e).pending = i.pending ++ [(owner, e)] := by
  unfold Inbox.push
  rw [if_pos h]
  show (i.queue.push (owner, e)).items = _
  rw [BoundedQueue.items_push, if_pos (by exact h)]
  rfl

theorem pending_push_full {i : Inbox} (h : i.hasRoom = false) (owner : ProcessId) (e : Event) :
    (i.push owner e).pending = i.pending := by
  unfold Inbox.push
  rw [if_neg (ne_true_of_eq_false h)]
  rfl

theorem events_wake (p : Process) : p.wake.events = p.events := by
  unfold Process.wake
  split <;> rfl

theorem events_receive (e : Event) (p : Process) : (p.receive e).events = p.events.push e := by
  unfold Process.receive
  rw [events_wake]

theorem events_checkTimer (now : Instant) (p : Process) : (p.checkTimer now).events = p.events := by
  unfold Process.checkTimer
  split <;> rfl

theorem events_sleep (timer : SleepTimer) (p : Process) : (p.sleep timer).events = p.events := by
  unfold Process.sleep
  split <;> rfl

/-- The oldest announcement goes to its owner. -/
theorem Sound.handed (h : s.Sound) {owner : ProcessId} {e : Event}
    {rest : List (ProcessId × Event)} (hp : s.inbox.pending = (owner, e) :: rest) :
    Sound { s with
      processes := s.processes.deliver owner e
      inbox := s.inbox.dropFront
      journal := (s.processes.deliveryNotes owner e).reverse ++ s.journal } := by
  have hpending := h.pending
  rw [hp] at hpending
  obtain ⟨a, others, ha, haeq, hothers⟩ := List.map_eq_cons_iff.1 hpending.symm
  cases haeq
  have hrest : s.inbox.dropFront.pending = rest := by
    show s.inbox.pending.tail = rest
    rw [hp]
    rfl
  have htail : rest = (announcements s.journal).tail.map fun a => (a.owner, a.event) := by
    rw [ha, ← hothers]
    rfl
  unfold Registry.deliveryNotes
  cases hget : s.processes.get? a.owner with
  | none =>
    refine ⟨hrest.trans htail, h.hooks, fun {id p} hq => ?_, trivial, h.lawful⟩
    rw [Registry.deliver, Registry.get?_modify] at hq
    split at hq
    · rename_i hid
      rw [hid, hget] at hq
      cases hq
    · exact h.queues hq
  | some o =>
    by_cases hroom : o.events.hasRoom = true
    · simp only [if_pos hroom]
      refine ⟨hrest.trans htail, h.hooks, fun {id p} hq => ?_, trivial, ⟨a, others, ha, rfl, rfl⟩,
        h.lawful⟩
      rw [Registry.deliver, Registry.get?_modify] at hq
      show _ = if a.owner = id then queued id s.journal ++ [a.event] else queued id s.journal
      split at hq
      · rename_i hid
        subst hid
        rw [hget] at hq
        cases hq
        rw [if_pos rfl, events_receive, BoundedQueue.items_push, if_pos hroom, h.queues hget]
      · rename_i hid
        rw [if_neg fun e => hid e.symm]
        exact h.queues hq
    · simp only [if_neg hroom]
      refine ⟨hrest.trans htail, h.hooks, fun {id p} hq => ?_, trivial, ⟨a, others, ha, rfl, rfl⟩,
        h.lawful⟩
      rw [Registry.deliver, Registry.get?_modify] at hq
      show _ = queued id s.journal
      split at hq
      · rename_i hid
        subst hid
        rw [hget] at hq
        cases hq
        rw [events_receive, BoundedQueue.items_push, if_neg hroom, h.queues hget]
      · exact h.queues hq

/-- The queues where one process changes. -/
theorem queues_modify (h : s.Sound) {id : ProcessId} {f : Process → Process}
    (hf : ∀ p, (f p).id = p.id) (he : ∀ p, (f p).events = p.events) {j : ProcessId} {q : Process}
    (hq : (s.processes.modify id f hf).get? j = some q) : q.events.items = queued j s.journal := by
  rw [Registry.get?_modify] at hq
  split at hq
  · obtain ⟨p, hp, rfl⟩ := Option.map_eq_some_iff.1 hq
    rw [he]
    exact h.queues hp
  · exact h.queues hq

theorem Sound.step (h : s.Sound) (hs : s.Step d t) : t.Sound := by
  cases hs with
  | untold hr =>
    refine ⟨h.pending, h.hooks, fun hq => ?_, h.lawful⟩
    obtain ⟨p, hp, hpq⟩ := hr.back hq
    rw [hpq.events]
    exact h.queues hp
  | @aside n hn =>
    refine ⟨?_, ?_, fun {id p} hq => ?_, follows_aside hn _, h.lawful⟩
    · show _ = (announcements (n :: s.journal)).map _
      rw [announcements_aside hn]
      exact h.pending
    · show _ = (registrations (n :: s.journal)).map _
      rw [registrations_aside hn]
      exact h.hooks
    · show _ = queued id (n :: s.journal)
      rw [queued_aside hn]
      exact h.queues hq
  | @announced g hg hroom =>
    rw [h.hooks] at hg
    obtain ⟨r, hr, rfl⟩ := List.mem_map.1 hg
    refine ⟨?_, h.hooks, h.queues, ⟨r, hr, rfl, rfl⟩, h.lawful⟩
    show (s.inbox.push _ _).pending = (announcements s.journal ++ [_]).map _
    rw [pending_push hroom, h.pending, List.map_append]
    rfl
  | inboxFull hg hroom =>
    refine ⟨?_, h.hooks, h.queues, trivial, h.lawful⟩
    show (s.inbox.push _ _).pending = _
    rw [pending_push_full hroom]
    exact h.pending
  | handed hp => exact h.handed hp
  | @expired now hn =>
    refine ⟨?_, ?_, fun {id q} hq => ?_, ?_⟩
    · show _ = (announcements (_ ++ s.journal)).map _
      rw [read_expiryNotes (f := announcements) fun _ _ => rfl]
      exact h.pending
    · show _ = (registrations (_ ++ s.journal)).map _
      rw [read_expiryNotes (f := registrations) fun _ _ => rfl]
      exact h.hooks
    · show _ = queued id (_ ++ s.journal)
      rw [read_expiryNotes (f := queued id) fun _ _ => rfl]
      replace hq : (s.processes.wakeExpired now).get? id = some q := hq
      rw [Registry.get?_wakeExpired] at hq
      obtain ⟨p, hp, rfl⟩ := Option.map_eq_some_iff.1 hq
      rw [events_checkTimer]
      exact h.queues hp
    · show Lawful (_ ++ s.journal)
      rw [read_expiryNotes (f := Lawful) fun _ past => by simp [Lawful, Note.Follows]]
      exact h.lawful
  | ticked => exact ⟨h.pending, h.hooks, h.queues, h.lawful⟩
  | @taken id p e hp he =>
    refine ⟨h.pending, h.hooks, fun {j q} hq => ?_, trivial, h.lawful⟩
    show _ = if id = j then (queued j s.journal).tail else queued j s.journal
    replace hq : (s.processes.modify id Process.dropEvent).get? j = some q := hq
    rw [Registry.get?_modify] at hq
    split at hq
    · rename_i hj
      subst hj
      rw [hp] at hq
      cases hq
      rw [if_pos rfl, ← h.queues hp]
      rfl
    · rename_i hj
      rw [if_neg fun e => hj e.symm]
      exact h.queues hq
  | woken hp =>
    exact ⟨h.pending, h.hooks, queues_modify h Process.id_wake events_wake, trivial, h.lawful⟩
  | spared hp hs =>
    exact ⟨h.pending, h.hooks, queues_modify h (Process.id_sleep _) (events_sleep _), trivial,
      h.lawful⟩
  | slept =>
    exact ⟨h.pending, h.hooks, queues_modify h (Process.id_sleep _) (events_sleep _), h.lawful⟩
  | paused =>
    exact ⟨h.pending, h.hooks, queues_modify h (Process.id_sleepUntil _) fun _ => rfl, h.lawful⟩
  | hooked hp =>
    refine ⟨h.pending, ?_, h.queues, trivial, h.lawful⟩
    show s.hooks ++ [_] = (registrations s.journal ++ [_]).map _
    rw [h.hooks, List.map_append]
    rfl

/-! ### Beginning and end of processes -/

/-- The hooks of a process are gone with their registrations, and nothing else is. -/
theorem Sound.unhook (h : s.Sound) (id : ProcessId) : (s.unhook id).Sound := by
  unfold Traffic.unhook
  simp only
  split
  · refine ⟨h.pending, ?_, h.queues, trivial, h.lawful⟩
    show s.hooks.filter _ = ((registrations s.journal).filter _).map _
    rw [h.hooks, List.filter_map]
    rfl
  · rename_i hnone
    refine ⟨h.pending, ?_, h.queues, h.lawful⟩
    rw [← h.hooks]
    refine List.filter_eq_self.2 fun g hg => bne_iff_ne.2 fun hid => hnone ?_
    exact List.length_pos_of_mem (List.mem_filter.2 ⟨hg, beq_iff_eq.2 hid⟩)

theorem Sound.finish (h : s.Sound) (id : ProcessId) (status : Word) :
    (s.finish id status).Sound := by
  have herased : ((s.erase id).note (.terminated id status)).Sound := by
    refine ⟨h.pending, h.hooks, fun {j p} hp => ?_, trivial, h.lawful⟩
    replace hp : (s.processes.erase id).get? j = some p := hp
    rw [Registry.get?_erase] at hp
    split at hp
    · cases hp
    · exact h.queues hp
  exact herased.unhook id

theorem announcements_unhook (s : Traffic) (id : ProcessId) :
    announcements (s.unhook id).journal = announcements s.journal := by
  unfold unhook
  simp only
  split <;> rfl

theorem releases_unhook (s : Traffic) (id : ProcessId) :
    releases (s.unhook id).journal = releases s.journal := by
  unfold unhook
  simp only
  split
  · exact releases_cons rfl
  · rfl

/-- What taking away the hooks of some processes leaves alone, and which hooks it leaves. -/
theorem sound_unhookAll (ids : List ProcessId) :
    ∀ {s : Traffic}, s.Sound → (s.unhookAll ids).Sound ∧
      announcements (s.unhookAll ids).journal = announcements s.journal ∧
      releases (s.unhookAll ids).journal = releases s.journal ∧
      (s.unhookAll ids).hooks = s.hooks.filter fun h => !ids.contains h.owner := by
  induction ids with
  | nil =>
    intro s h
    exact ⟨h, rfl, rfl, (List.filter_eq_self.2 fun _ _ => rfl).symm⟩
  | cons id rest ih =>
    intro s h
    obtain ⟨hsound, ha, hr, hh⟩ := ih (h.unhook id)
    refine ⟨hsound, ha.trans (announcements_unhook s id), hr.trans (releases_unhook s id), ?_⟩
    rw [unhookAll, hh, hooks_unhook, List.filter_filter]
    refine List.filter_congr fun g _ => ?_
    rw [List.contains_cons, Bool.not_or, Bool.and_comm]
    rfl

/-- A new process gets no event that was announced for an earlier one, because there is none. -/
theorem Sound.create (h : s.Sound) (hh : s.HooksOwned) (hp : s.PendingOwned) {p : Process}
    {entry : VirtAddr} (hid : s.processes.get? p.id = none) (hnew : p.Newborn) :
    (s.create p entry).Sound := by
  refine ⟨h.pending, h.hooks, fun {j q} hq => ?_, ⟨fun r hr howner => ?_, fun a ha howner => ?_⟩,
    h.lawful⟩
  · show _ = if p.id = j then [] else queued j s.journal
    replace hq : (s.processes.insert p).get? j = some q := hq
    rw [Registry.get?_insert] at hq
    split at hq
    · rename_i hj
      cases hq
      rw [if_pos hj, hnew.events]
    · rename_i hj
      rw [if_neg hj]
      exact h.queues hq
  · obtain ⟨q, hq⟩ := hh r.hook (by rw [h.hooks]; exact List.mem_map_of_mem hr)
    rw [howner, hid] at hq
    cases hq
  · rcases hp a ha with ⟨q, hq⟩ | hlt
    · rw [howner, hid] at hq
      cases hq
    · exact hlt

theorem Sound.release (h : s.Sound) : s.release.Sound := by
  obtain ⟨hsound, _⟩ := sound_unhookAll s.processes.ids h
  refine ⟨hsound.pending, hsound.hooks, fun {id p} hp => ?_, trivial, hsound.lawful⟩
  replace hp : Registry.empty.get? id = some p := hp
  rw [Registry.get?_empty] at hp
  cases hp

/-! ### Owners exist -/

theorem has_modify {f : Process → Process} (hf : ∀ p, (f p).id = p.id) {j : ProcessId} :
    (∃ q, (s.processes.modify j f hf).get? id = some q) ↔ s.Has id := by
  unfold Has
  rw [Registry.get?_modify]
  cases s.processes.get? id with
  | none => split <;> rfl
  | some p => split <;> exact ⟨fun _ => ⟨_, rfl⟩, fun _ => ⟨_, rfl⟩⟩

/-- No step creates or ends a process. -/
theorem has_step (hs : s.Step d t) : t.Has id ↔ s.Has id := by
  cases hs with
  | untold hr =>
    constructor
    · rintro ⟨q, hq⟩
      exact (hr.back hq).imp fun _ hp => hp.1
    · rintro ⟨p, hp⟩
      exact (hr.forth hp).imp fun _ hq => hq.1
  | handed => exact has_modify (Process.id_receive _)
  | @expired now =>
    show (∃ q, (s.processes.wakeExpired now).get? id = some q) ↔ ∃ p, s.processes.get? id = some p
    rw [Registry.get?_wakeExpired]
    cases s.processes.get? id with
    | none => rfl
    | some p => exact ⟨fun _ => ⟨_, rfl⟩, fun _ => ⟨_, rfl⟩⟩
  | taken => exact has_modify Process.id_dropEvent
  | woken => exact has_modify Process.id_wake
  | spared => exact has_modify (Process.id_sleep _)
  | slept => exact has_modify (Process.id_sleep _)
  | paused => exact has_modify (Process.id_sleepUntil _)
  | _ => rfl

theorem calm_has (h : s.Calm t) : t.Has id ↔ s.Has id :=
  h.invariant (P := fun t => t.Has id ↔ s.Has id) (fun ht hs => (has_step hs).trans ht) .rfl

/-- Who has ended is gone. -/
theorem not_has_ended {status : Word} (h : (s.finish id status).Calm t) : ¬ t.Has id := by
  intro hhas
  obtain ⟨q, hq⟩ := (calm_has h).1 hhas
  rw [get?_finish, if_pos rfl] at hq
  cases hq

theorem not_has_released (h : s.release.Calm t) : ¬ t.Has id := by
  intro hhas
  obtain ⟨q, hq⟩ := (calm_has h).1 hhas
  cases hq

theorem HooksOwned.step (h : s.HooksOwned) (hs : s.Step d t) : t.HooksOwned := by
  intro g hg
  refine (has_step hs).2 ?_
  cases hs with
  | hooked hp =>
    rcases List.mem_append.1 hg with hg | hg
    · exact h g hg
    · rw [List.mem_singleton.1 hg]
      exact ⟨_, hp⟩
  | _ => exact h g hg

theorem isRelease_aside {n : Note} (h : n.isAside = true) : n.isRelease = false := by
  cases n <;> first | rfl | cases h

theorem releases_step (hs : s.Step d t) : releases t.journal = releases s.journal := by
  cases hs with
  | untold => rfl
  | aside hn => exact releases_cons (isRelease_aside hn)
  | @handed owner e rest hp =>
    show releases ((s.processes.deliveryNotes owner e).reverse ++ s.journal) = _
    unfold Registry.deliveryNotes
    split
    · exact releases_cons rfl
    · refine (releases_cons rfl).trans (releases_cons ?_)
      split <;> rfl
  | expired =>
    exact read_expiryNotes (f := releases) (fun _ _ => releases_cons rfl) _ _ _
  | ticked => rfl
  | slept => rfl
  | paused => rfl
  | _ => exact releases_cons rfl

/-- Only hooks announce something. -/
theorem mem_announcements_step {a : Announcement} (hs : s.Step d t)
    (ha : a ∈ announcements t.journal) :
    a ∈ announcements s.journal ∨ ∃ h ∈ s.hooks, h.owner = a.owner := by
  cases hs with
  | @aside n hn =>
    replace ha : a ∈ announcements (n :: s.journal) := ha
    rw [announcements_aside hn] at ha
    exact .inl ha
  | announced hg hroom =>
    rcases List.mem_append.1 ha with ha | ha
    · exact .inl ha
    · rw [List.mem_singleton.1 ha]
      exact .inr ⟨_, hg, rfl⟩
  | @handed owner e rest hp =>
    left
    replace ha : a ∈ announcements ((s.processes.deliveryNotes owner e).reverse ++ s.journal) := ha
    unfold Registry.deliveryNotes at ha
    split at ha
    · exact List.mem_of_mem_tail ha
    · split at ha <;> exact List.mem_of_mem_tail ha
  | @expired now =>
    left
    replace ha : a ∈ announcements ((s.processes.expiryNotes now).reverse ++ s.journal) := ha
    rw [read_expiryNotes (f := announcements) fun _ _ => rfl] at ha
    exact ha
  | _ => exact .inl ha

theorem PendingOwned.step (h : s.PendingOwned) (hh : s.HooksOwned) (hs : s.Step d t) :
    t.PendingOwned := by
  intro a ha
  rw [releases_step hs]
  rcases mem_announcements_step hs ha with ha | ⟨g, hg, howner⟩
  · exact (h a ha).imp_left (has_step hs).2
  · exact .inl ((has_step hs).2 (howner ▸ hh g hg))

/-- What holds between two actions. -/
structure Settled (s : Traffic) : Prop where
  sound : s.Sound
  hooks : s.HooksOwned
  pending : s.PendingOwned

theorem Settled.step (h : s.Settled) (hs : s.Step d t) : t.Settled :=
  ⟨h.sound.step hs, h.hooks.step hs, h.pending.step h.hooks hs⟩

theorem Settled.create (h : s.Settled) {p : Process} {entry : VirtAddr}
    (hid : s.processes.get? p.id = none) (hnew : p.Newborn) :
    (s.create p entry).Settled := by
  have hhas : ∀ {j}, s.Has j → (s.create p entry).Has j := by
    rintro j ⟨q, hq⟩
    show ∃ u, (s.processes.insert p).get? j = some u
    rw [Registry.get?_insert]
    split
    · exact ⟨p, rfl⟩
    · exact ⟨q, hq⟩
  refine ⟨h.sound.create h.hooks h.pending hid hnew, fun g hg => hhas (h.hooks g hg), fun a ha => ?_⟩
  have hreleases : releases (s.create p entry).journal = releases s.journal := releases_cons rfl
  rw [hreleases]
  exact (h.pending a ha).imp_left hhas

/-- The hooks of a process that ends do not outlive it. -/
theorem HooksOwned.finish (h : s.HooksOwned) (id : ProcessId) (status : Word) :
    (s.finish id status).HooksOwned := by
  intro g hg
  rw [hooks_finish] at hg
  obtain ⟨hg, hne⟩ := List.mem_filter.1 hg
  obtain ⟨p, hp⟩ := h g hg
  refine ⟨p, ?_⟩
  rw [get?_finish, if_neg (bne_iff_ne.1 hne)]
  exact hp

/-- All hooks go with the processes, but what waits in the inbox stays. -/
theorem Settled.release (h : s.Settled) : s.release.Settled := by
  obtain ⟨_, ha, hr, hh⟩ := sound_unhookAll s.processes.ids h.sound
  refine ⟨h.sound.release, fun g hg => ?_, fun a ha' => .inr ?_⟩
  · replace hg : g ∈ (s.unhookAll s.processes.ids).hooks := hg
    rw [hh] at hg
    obtain ⟨hg, hgone⟩ := List.mem_filter.1 hg
    obtain ⟨p, hp⟩ := h.hooks g hg
    obtain ⟨hmem, hid⟩ := Registry.get?_eq_some_iff.1 hp
    have hids : g.owner ∈ s.processes.ids := List.mem_map.2 ⟨p, hmem, hid⟩
    simp [hids] at hgone
  · replace ha' : a ∈ announcements (s.unhookAll s.processes.ids).journal := ha'
    rw [ha] at ha'
    have hle := releases_le (past_of_mem_announcements ha')
    have : releases s.release.journal = releases s.journal + 1 := by
      rw [← hr]
      exact List.countP_cons_of_pos rfl
    omega

theorem Settled.move (h : s.Settled) (hm : s.Move d u) : u.Settled := by
  cases hm with
  | quiet hu => exact hu.calm.invariant Settled.step h
  | ticked hu => exact Calm.invariant Settled.step h hu
  | asked _ ht hv hu =>
    exact hu.calm.invariant Settled.step ((ht.calm.invariant Settled.step h).step hv)
  | created ht hid hnew hu =>
    exact hu.calm.invariant Settled.step ((ht.calm.invariant Settled.step h).create hid hnew)
  | @ended s t v u p id status ht _ hv hnone hu =>
    have ht := ht.calm.invariant Settled.step h
    have hsound : v.Sound := hv.calm.invariant Sound.step (ht.sound.finish id status)
    have hhooks : v.HooksOwned := hv.calm.invariant HooksOwned.step (ht.hooks.finish id status)
    -- What waited for the process that ended was dropped when the inbox was emptied.
    have hpending : v.PendingOwned := by
      intro a ha
      have hmap := hsound.pending
      rw [hnone] at hmap
      rw [List.map_eq_nil_iff.1 hmap.symm] at ha
      cases ha
    exact hu.calm.invariant Settled.step ⟨hsound, hhooks, hpending⟩
  | released ht hu =>
    exact hu.calm.invariant Settled.step (ht.calm.invariant Settled.step h).release

end Traffic

namespace Machine

variable {m n : Machine}

theorem settled_of_reachable (hm : Reachable m) : m.traffic.Settled := by
  refine traffic_invariant (fun now capacity => ⟨⟨rfl, rfl, ?_, trivial⟩, ?_, ?_⟩)
    Traffic.Settled.move hm
  · intro id p hp
    cases hp
  · intro g hg
    cases hg
  · intro a ha
    cases ha

/-- The inbox, the hooks and the queues hold just what was told. Whoever got an event, or a wakeup
for one that did not fit in its queue, got the oldest announcement, which a hook had made that was
registered for the process with that identifier at the time of the announcement. The process that
got it is still that one, unless all processes were released in between. -/
theorem delivered_from_hook (hm : Reachable m) :
    m.kernel.devices.inbox.pending = ((announcements m.journal).map fun a => (a.owner, a.event)) ∧
    m.kernel.devices.vectors.hooks = (registrations m.journal).map Registration.hook ∧
    (∀ id p, m.kernel.processes.get? id = some p → p.events.items = queued id m.journal) ∧
    ∀ note past owner e, note :: past <:+ m.journal → note.handed? = some (owner, e) →
      ∃ a rest, announcements past = a :: rest ∧ a.owner = owner ∧ a.event = e ∧
        (∃ r ∈ registrations a.past, r.hook.owner = owner ∧ e = .interrupt r.hook.line ∧
          incarnation owner r.past = incarnation owner a.past) ∧
        (releases a.past = releases past → incarnation owner a.past = incarnation owner past) := by
  obtain ⟨hsound, _, _⟩ := settled_of_reachable hm
  refine ⟨hsound.pending, hsound.hooks, fun id p hp => hsound.queues hp, ?_⟩
  intro note past owner e hs hnote
  obtain ⟨a, rest, ha, rfl, rfl, hgenuine⟩ :=
    handed_of_lawful (lawful_of_suffix hsound.lawful hs) hnote
  exact ⟨a, rest, ha, rfl, rfl, hgenuine.hook, hgenuine.owner⟩

/-- The first process watches line 1, which traps. -/
theorem delivered_from_hook_watch : ∃ m past a r,
    trial (.boot trialEntry :: calls 0 .watchLine 1 ++ [.interrupt (.ofVector 33)]) = .done m () ∧
    .delivered (.interrupt 1) 1 :: past <:+ m.journal ∧ a ∈ announcements past ∧
    r ∈ registrations a.past ∧ r.hook.owner = 1 ∧ incarnation 1 r.past = incarnation 1 past := by
  obtain ⟨m, hm, hcheck⟩ := Outcome.exists_of_endsIn
    (trial (.boot trialEntry :: calls 0 .watchLine 1 ++ [.interrupt (.ofVector 33)]))
    (fun m => m.journal.tail.head? == some (.delivered (.interrupt 1) 1) &&
      releases m.journal == 0)
    (by decide +kernel)
  simp only [Bool.and_eq_true, beq_iff_eq] at hcheck
  obtain ⟨hhead, hreleases⟩ := hcheck
  obtain ⟨past, htail⟩ := List.head?_eq_some_iff.1 hhead
  have hs : .delivered (.interrupt 1) 1 :: past <:+ m.journal := htail ▸ List.tail_suffix _
  obtain ⟨_, _, _, hdelivered⟩ := delivered_from_hook (.trial hm)
  obtain ⟨a, rest, ha, _, _, ⟨r, hr, howner, _, hregistered⟩, hcurrent⟩ :=
    hdelivered _ past 1 (.interrupt 1) hs rfl
  have hmem : a ∈ announcements past := by
    rw [ha]
    exact List.mem_cons_self
  have hpast := releases_le ((List.suffix_cons _ _).trans hs)
  have hle := releases_le (past_of_mem_announcements hmem)
  exact ⟨m, past, a, r, hm, hs, hmem, hr, howner, hregistered.trans (hcurrent (by omega))⟩

/-- An event outlives the release of all processes: it was announced to a process that does not
exist any more, and the next process with that identifier gets it, though it watches nothing. -/
theorem delivered_after_release : ∃ m p,
    trial (.boot trialEntry :: calls 0 .watchLine 1 ++
      [.arrival (.interrupt 33), .shutdown, .boot trialEntry]) = .done m () ∧
    m.kernel.processes.get? 1 = some p ∧ p.events.items = [.interrupt 1] ∧
    watched 1 1 m.journal = false := by
  obtain ⟨m, hm, hcheck⟩ := Outcome.exists_of_endsIn
    (trial (.boot trialEntry :: calls 0 .watchLine 1 ++
      [.arrival (.interrupt 33), .shutdown, .boot trialEntry]))
    (fun m => ((m.kernel.processes.get? 1).any fun p => p.events.items == [.interrupt 1]) &&
      !watched 1 1 m.journal)
    (by decide +kernel)
  simp only [Bool.and_eq_true, Option.any_eq_true, Bool.not_eq_true', beq_iff_eq] at hcheck
  obtain ⟨⟨p, hp, he⟩, hw⟩ := hcheck
  exact ⟨m, p, hm, hp, he, hw⟩

end Machine
end Nucleus
