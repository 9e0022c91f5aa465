import Mathlib.Logic.Relation
import Nucleus.Proofs.Table

/-!
# Nucleus.Proofs.Traffic

The traffic of a machine: the way of an interrupt over hooks, the inbox and the queues of the
processes, the wakeups that come with it, the sleeps that wakeups and the clock end, and what was
told of all that. A machine is a large thing and most of it has nothing to do with its traffic, so
what can happen to the traffic is said once, as a small system of its own, and every invariant of
hooks, events, wakeups and sleeps is proved of that.

* `Traffic.Step`: the single steps, between which processes may be switched, blocked and answered.
  A step has a `Deed` if somebody asked for it; all others happen by themselves.
* `Traffic.Calm`: some steps in a row that nobody asked for.
* `Traffic.Timely`: the same, where deadlines were looked at if the clock has gone on.
* `Traffic.Move`: what one action can do, with its deed. A process that ends loses its hooks at
  once, and the inbox is emptied before the action is over; when all processes are released the
  inbox stays as it is.
-/

namespace Nucleus

/-- The note tells nothing of processes created, ended or released, of hooks, events, wakeups or
sleeps. -/
def Note.isAside : Note → Bool
  | created _ _ _ => false
  | terminated _ _ => false
  | released _ => false
  | timerExpired _ => false
  | announced _ _ => false
  | inboxFull _ _ => false
  | delivered _ _ => false
  | queueFull _ _ => false
  | ownerMissing _ _ => false
  | taken _ _ => false
  | woken _ _ => false
  | hooked _ _ => false
  | unhooked _ _ => false
  | wakeupConsumed _ => false
  | _ => true

/-- The events, the wakeups and the sleep of a process stay as they are. -/
structure Process.Untold (p q : Process) : Prop where
  events : q.events = p.events
  wakeups : q.wakeups = p.wakeups
  sleepTimer : q.sleepTimer = p.sleepTimer
  sleeping_iff : q.state = .sleeping ↔ p.state = .sleeping

namespace Process

theorem Untold.refl (p : Process) : p.Untold p :=
  ⟨rfl, rfl, rfl, .rfl⟩

/-- They do where the process was awake and is not put to sleep. -/
theorem untold_of_awake {p q : Process} (he : q.events = p.events) (hw : q.wakeups = p.wakeups)
    (ht : q.sleepTimer = p.sleepTimer) (hp : p.state ≠ .sleeping) (hq : q.state ≠ .sleeping) :
    p.Untold q :=
  ⟨he, hw, ht, fun h => absurd h hq, fun h => absurd h hp⟩

theorem untold_suspend (frame : Registers) (p : Process) : p.Untold (p.suspend frame) := by
  refine ⟨rfl, rfl, rfl, ?_⟩
  unfold suspend
  simp only
  split
  · rename_i hs
    rw [hs]
    constructor <;> intro e <;> cases e
  · rfl

end Process

/-- A process that nothing has reached yet. -/
structure Process.Newborn (p : Process) : Prop where
  events : p.events.items = []
  wakeups : p.wakeups = 0
  sleepTimer : p.sleepTimer = none
  state : p.state = .ready

/-- The same identifiers, and under each one the same events, wakeups and sleep. -/
abbrev Registry.Untold (r s : Registry) : Prop :=
  Rel Process.Untold r s

theorem Registry.untold_deliverExit (r : Registry) (ended : ProcessId) (status : Word) :
    r.Untold (r.deliverExit ended status) := by
  unfold Registry.deliverExit Registry.mapIf
  refine Registry.rel_map fun p => ?_
  split
  · rename_i hw
    refine Process.untold_of_awake rfl rfl rfl ?_ (by rintro ⟨⟩)
    rw [(Kernel.isWaitingFor_iff.1 hw).1]
    rintro ⟨⟩
  · exact .refl p

theorem Registry.get?_deliver (r : Registry) (owner : ProcessId) (e : Event) (id : ProcessId) :
    (r.deliver owner e).get? id =
      if id = owner then (r.get? id).map (Process.receive e) else r.get? id :=
  get?_modify owner id

theorem Registry.get?_wakeExpired (r : Registry) (now : Instant) (id : ProcessId) :
    (r.wakeExpired now).get? id = (r.get? id).map (Process.checkTimer now) :=
  get?_map id

/-- What nobody learns from the end of a sleep is not changed by the notes on those that ended. -/
theorem read_expiryNotes {α : Sort _} {f : Journal → α}
    (hf : ∀ id past, f (.timerExpired id :: past) = f past) (r : Registry) (now : Instant)
    (j : Journal) : f ((r.expiryNotes now).reverse ++ j) = f j := by
  unfold Registry.expiryNotes
  generalize r.toList.filter (Process.isOverdue now) = l
  induction l generalizing j with
  | nil => rfl
  | cons p rest ih =>
    rw [List.map_cons, List.reverse_cons, List.append_assoc, ih]
    exact hf p.id j

/-- What somebody asked for that matters to the traffic. -/
inductive Deed where
  | nothing
  /-- The clock goes on and nobody looks at deadlines. -/
  | tick
  | create (id : ProcessId)
  | finish (id : ProcessId)
  /-- All processes are released at once. -/
  | release
  | hook (line : Word) (owner : ProcessId)
  | wake (id : ProcessId)
  /-- A request to sleep that blocks. -/
  | sleep (id : ProcessId)
  /-- A request to sleep that uses up a pending wakeup. -/
  | spare (id : ProcessId)
  /-- A request to wait for a deadline, which blocks whatever wakeups are pending. -/
  | pause (id : ProcessId)
  | take (id : ProcessId)
deriving DecidableEq

/-- What there is to interrupts and sleeps, besides the enabled lines. -/
structure Traffic where
  /-- The time, if there is a clock. -/
  now : Option Instant
  processes : Registry
  inbox : Inbox
  hooks : List Hook
  journal : Journal

namespace Traffic

def note (s : Traffic) (n : Note) : Traffic :=
  { s with journal := n :: s.journal }

def create (s : Traffic) (p : Process) (entry : VirtAddr) : Traffic :=
  { s with processes := s.processes.insert p }.note (.created p.id entry p.space)

def erase (s : Traffic) (id : ProcessId) : Traffic :=
  { s with processes := s.processes.erase id }

/-- There is a clock, and the deadline has not been reached. -/
def IsAhead (s : Traffic) (deadline : Instant) : Prop :=
  ∃ now, s.now = some now ∧ deadline.reachedBy now = false

/-- The traffic without the hooks of a process. -/
def unhook (s : Traffic) (id : ProcessId) : Traffic :=
  let count := (s.hooks.filter fun h => h.owner == id).length
  let s := { s with hooks := s.hooks.filter fun h => h.owner != id }
  if 0 < count then s.note (.unhooked count id) else s

/-- The end of a process, whose hooks go with it. -/
def finish (s : Traffic) (id : ProcessId) (status : Word) : Traffic :=
  ((s.erase id).note (.terminated id status)).unhook id

def unhookAll (s : Traffic) : List ProcessId → Traffic
  | [] => s
  | id :: rest => (s.unhook id).unhookAll rest

/-- The traffic without processes, and without the hooks of those there were. -/
def release (s : Traffic) : Traffic :=
  let s := s.unhookAll s.processes.ids
  { s with processes := .empty }.note (.released s.processes.size)

/-- One step of an event, a hook, a wakeup or a sleep. -/
inductive Step (s : Traffic) : Deed → Traffic → Prop where
  | untold {r : Registry} : s.processes.Untold r → Step s .nothing { s with processes := r }
  | aside {n : Note} : n.isAside = true → Step s .nothing (s.note n)
  | ticked {now later : Instant} : s.now = some now → now.ticks ≤ later.ticks →
      Step s .nothing { s with now := some later }
  | announced {h : Hook} : h ∈ s.hooks → s.inbox.hasRoom = true →
      Step s .nothing ({ s with inbox := s.inbox.push h.owner (.interrupt h.line) }.note
        (.announced (.interrupt h.line) h.owner))
  | inboxFull {h : Hook} : h ∈ s.hooks → s.inbox.hasRoom = false →
      Step s .nothing ({ s with inbox := s.inbox.push h.owner (.interrupt h.line) }.note
        (.inboxFull (.interrupt h.line) h.owner))
  /-- The oldest event of the inbox goes to its owner, if there is one. -/
  | handed {owner : ProcessId} {e : Event} {rest : List (ProcessId × Event)} :
      s.inbox.pending = (owner, e) :: rest →
      Step s .nothing { s with
        processes := s.processes.deliver owner e
        inbox := s.inbox.dropFront
        journal := (s.processes.deliveryNotes owner e).reverse ++ s.journal }
  /-- The sleeps end whose deadline has been reached. -/
  | expired {now : Instant} : s.now = some now →
      Step s .nothing { s with
        processes := s.processes.wakeExpired now
        journal := (s.processes.expiryNotes now).reverse ++ s.journal }
  | taken {id : ProcessId} {p : Process} {e : Event} :
      s.processes.get? id = some p → p.nextEvent? = some e →
      Step s (.take id)
        ({ s with processes := s.processes.modify id Process.dropEvent }.note (.taken e id))
  | woken {id : ProcessId} {p : Process} :
      s.processes.get? id = some p →
      Step s (.wake id) ({ s with processes := s.processes.modify id Process.wake }.note
        (.woken id (p.state == ProcessState.sleeping)))
  /-- A pending wakeup is used up in the place of a sleep. -/
  | spared {id : ProcessId} {p : Process} {timer : SleepTimer} :
      s.processes.get? id = some p → p.sleepOutcome = .alreadyWoken →
      Step s (.spare id) ({ s with processes := s.processes.modify id (Process.sleep timer) }.note
        (.wakeupConsumed id))
  | slept {id : ProcessId} {p : Process} {timer : SleepTimer} :
      s.processes.get? id = some p → p.state ≠ .sleeping → p.sleepOutcome = .willSleep →
      (∀ deadline, timer = .until deadline → s.IsAhead deadline) →
      Step s (.sleep id) { s with processes := s.processes.modify id (Process.sleep timer) }
  | paused {id : ProcessId} {p : Process} {deadline : Instant} :
      s.processes.get? id = some p → p.state ≠ .sleeping → s.IsAhead deadline →
      Step s (.pause id) { s with processes := s.processes.modify id (Process.sleepUntil deadline) }
  | hooked {line : Word} {owner : ProcessId} {p : Process} :
      s.processes.get? owner = some p →
      Step s (.hook line owner)
        ({ s with hooks := s.hooks ++ [Hook.mk line owner] }.note (.hooked line owner))

/-- Some steps in a row that nobody asked for. -/
abbrev Calm : Traffic → Traffic → Prop :=
  Relation.ReflTransGen fun s t => s.Step .nothing t

/-- All who sleep until a deadline sleep until one that lies ahead. -/
def Punctual (s : Traffic) : Prop :=
  ∀ id p now deadline, s.processes.get? id = some p → p.state = .sleeping →
    p.sleepTimer = some (.until deadline) → s.now = some now → deadline.reachedBy now = false

/-- Some steps in a row, after which deadlines were looked at if the clock has gone on. -/
structure Timely (s u : Traffic) : Prop where
  calm : s.Calm u
  timely : u.now = s.now ∨ u.Punctual

/-- What one action can do, by its deed. -/
inductive Move : Deed → Traffic → Traffic → Prop where
  | quiet {s u : Traffic} : s.Timely u → Move .nothing s u
  | ticked {s u : Traffic} : s.Calm u → Move .tick s u
  | asked {s t v u : Traffic} {d : Deed} : d ≠ .nothing → s.Timely t → t.Step d v → v.Timely u →
      Move d s u
  | created {s t u : Traffic} {p : Process} {entry : VirtAddr} : s.Timely t →
      t.processes.get? p.id = none → p.Newborn → (t.create p entry).Timely u →
      Move (.create p.id) s u
  | ended {s t v u : Traffic} {p : Process} {id : ProcessId} {status : Word} : s.Timely t →
      t.processes.get? id = some p → (t.finish id status).Timely v → v.inbox.pending = [] →
      v.Timely u → Move (.finish id) s u
  | released {s t u : Traffic} : s.Timely t → t.release.Timely u → Move .release s u

variable {s t u : Traffic} {d : Deed}

@[simp] theorem processes_unhook (s : Traffic) (id : ProcessId) :
    (s.unhook id).processes = s.processes := by
  unfold unhook
  simp only
  split <;> rfl

@[simp] theorem hooks_unhook (s : Traffic) (id : ProcessId) :
    (s.unhook id).hooks = s.hooks.filter fun h => h.owner != id := by
  unfold unhook
  simp only
  split <;> rfl

@[simp] theorem inbox_unhook (s : Traffic) (id : ProcessId) : (s.unhook id).inbox = s.inbox := by
  unfold unhook
  simp only
  split <;> rfl

@[simp] theorem now_unhook (s : Traffic) (id : ProcessId) : (s.unhook id).now = s.now := by
  unfold unhook
  simp only
  split <;> rfl

@[simp] theorem now_unhookAll (ids : List ProcessId) :
    ∀ s : Traffic, (s.unhookAll ids).now = s.now := by
  induction ids with
  | nil => exact fun _ => rfl
  | cons id rest ih => exact fun s => (ih _).trans (s.now_unhook id)

theorem unhook_processes (s : Traffic) (r : Registry) (id : ProcessId) :
    ({ s with processes := r } : Traffic).unhook id = { s.unhook id with processes := r } := by
  unfold unhook
  simp only
  split <;> rfl

theorem get?_create (s : Traffic) (p : Process) (entry : VirtAddr) (j : ProcessId) :
    (s.create p entry).processes.get? j = if p.id = j then some p else s.processes.get? j :=
  Registry.get?_insert p j

theorem get?_finish (s : Traffic) (id : ProcessId) (status : Word) (j : ProcessId) :
    (s.finish id status).processes.get? j = if j = id then none else s.processes.get? j := by
  unfold finish
  rw [processes_unhook]
  exact Registry.get?_erase id j

theorem now_finish (s : Traffic) (id : ProcessId) (status : Word) :
    (s.finish id status).now = s.now :=
  now_unhook _ id

theorem hooks_finish (s : Traffic) (id : ProcessId) (status : Word) :
    (s.finish id status).hooks = s.hooks.filter fun h => h.owner != id :=
  hooks_unhook _ id

/-- What every step keeps is kept by some steps in a row. -/
theorem Calm.invariant {P : Traffic → Prop}
    (hstep : ∀ {s t : Traffic}, P s → s.Step .nothing t → P t) (hs : P s) (h : s.Calm t) : P t := by
  induction h with
  | refl => exact hs
  | tail _ ht ih => exact hstep ih ht

/-! ### Deadlines -/

/-- Who sleeps after a step slept before, until the same deadline, or has just been put to sleep,
until one that lies ahead if there is one. -/
theorem Step.slept_before (hs : s.Step d t) {id : ProcessId} {q : Process}
    (hq : t.processes.get? id = some q) (hsleeps : q.state = .sleeping) :
    (∃ p, s.processes.get? id = some p ∧ p.state = .sleeping ∧ p.sleepTimer = q.sleepTimer) ∨
      d ≠ .nothing ∧ ∀ deadline, q.sleepTimer = some (.until deadline) → s.IsAhead deadline := by
  cases hs with
  | untold hr =>
    obtain ⟨p, hp, hpq⟩ := hr.back hq
    exact .inl ⟨p, hp, hpq.sleeping_iff.1 hsleeps, hpq.sleepTimer.symm⟩
  | handed =>
    rw [Registry.get?_deliver] at hq
    split at hq
    · obtain ⟨p, hp, rfl⟩ := Option.map_eq_some_iff.1 hq
      exact absurd hsleeps (Process.not_sleeping_wake _)
    · exact .inl ⟨q, hq, hsleeps, rfl⟩
  | expired =>
    rw [Registry.get?_wakeExpired] at hq
    obtain ⟨p, hp, rfl⟩ := Option.map_eq_some_iff.1 hq
    unfold Process.checkTimer at hsleeps ⊢
    split at hsleeps
    · cases hsleeps
    · rename_i hahead
      rw [if_neg hahead]
      exact .inl ⟨p, hp, hsleeps, rfl⟩
  | taken =>
    obtain ⟨p, hp, ⟨_, rfl⟩ | ⟨rfl, rfl⟩⟩ := Registry.get?_modify_eq_some Process.id_dropEvent hq
    · exact .inl ⟨q, hp, hsleeps, rfl⟩
    · exact .inl ⟨p, hp, hsleeps, rfl⟩
  | woken =>
    obtain ⟨p, hp, ⟨_, rfl⟩ | ⟨rfl, rfl⟩⟩ := Registry.get?_modify_eq_some Process.id_wake hq
    · exact .inl ⟨q, hp, hsleeps, rfl⟩
    · exact absurd hsleeps p.not_sleeping_wake
  | spared hp hs =>
    obtain ⟨p, hp', ⟨_, rfl⟩ | ⟨rfl, rfl⟩⟩ := Registry.get?_modify_eq_some (Process.id_sleep _) hq
    · exact .inl ⟨q, hp', hsleeps, rfl⟩
    · cases hp.symm.trans hp'
      rw [Process.sleep_of_alreadyWoken hs] at hsleeps ⊢
      exact .inl ⟨_, hp, hsleeps, rfl⟩
  | slept hp hawake hs hahead =>
    obtain ⟨p, hp', ⟨_, rfl⟩ | ⟨rfl, rfl⟩⟩ := Registry.get?_modify_eq_some (Process.id_sleep _) hq
    · exact .inl ⟨q, hp', hsleeps, rfl⟩
    · cases hp.symm.trans hp'
      rw [Process.sleep_of_willSleep hs]
      exact .inr ⟨by rintro ⟨⟩, fun d hd => hahead d (Option.some.inj hd)⟩
  | paused hp hawake hahead =>
    obtain ⟨p, hp', ⟨_, rfl⟩ | ⟨rfl, rfl⟩⟩ := Registry.get?_modify_eq_some (Process.id_sleepUntil _) hq
    · exact .inl ⟨q, hp', hsleeps, rfl⟩
    · refine .inr ⟨by rintro ⟨⟩, fun d hd => ?_⟩
      cases hd
      exact hahead
  | _ => exact .inl ⟨q, hq, hsleeps, rfl⟩

theorem Calm.slept_before (hc : s.Calm t) :
    ∀ {id : ProcessId} {q : Process}, t.processes.get? id = some q → q.state = .sleeping →
      ∃ p, s.processes.get? id = some p ∧ p.state = .sleeping ∧ p.sleepTimer = q.sleepTimer := by
  induction hc with
  | refl => exact fun hq hs => ⟨_, hq, hs, rfl⟩
  | tail _ ht ih =>
    intro id q hq hs
    rcases ht.slept_before hq hs with ⟨p, hp, hps, htimer⟩ | ⟨hd, _⟩
    · obtain ⟨o, ho, hos, htimer'⟩ := ih hp hps
      exact ⟨o, ho, hos, htimer'.trans htimer⟩
    · exact absurd rfl hd

/-- Nobody oversleeps while the clock stands still. -/
theorem Punctual.calm (h : s.Punctual) (hc : s.Calm t) (hn : t.now = s.now) : t.Punctual := by
  intro id q now deadline hq hs htimer hnow
  obtain ⟨p, hp, hps, hsame⟩ := hc.slept_before hq hs
  exact h id p now deadline hp hps (hsame.trans htimer) (hn ▸ hnow)

theorem Punctual.step (h : s.Punctual) (hs : s.Step d t) (hn : t.now = s.now) : t.Punctual := by
  intro id q now deadline hq hsleeps htimer hnow
  rw [hn] at hnow
  rcases hs.slept_before hq hsleeps with ⟨p, hp, hps, hsame⟩ | ⟨_, hahead⟩
  · exact h id p now deadline hp hps (hsame.trans htimer) hnow
  · obtain ⟨now', hnow', hlater⟩ := hahead deadline htimer
    cases hnow'.symm.trans hnow
    exact hlater

/-- The clock never goes back. -/
theorem Step.now_le (hs : s.Step d t) :
    t.now = s.now ∨ ∃ now later, s.now = some now ∧ t.now = some later ∧
      now.ticks ≤ later.ticks := by
  cases hs with
  | ticked hn hle => exact .inr ⟨_, _, hn, rfl, hle⟩
  | _ => exact .inl rfl

theorem Punctual.timely (h : s.Punctual) (ht : s.Timely t) : t.Punctual := by
  rcases ht.timely with hnow | hpunctual
  · exact h.calm ht.calm hnow
  · exact hpunctual

/-- Deadlines have just been looked at. -/
theorem punctual_expired {now : Instant} (hn : s.now = some now) (j : Journal) :
    Punctual { s with processes := s.processes.wakeExpired now, journal := j } := by
  intro id q now' deadline hq hs htimer hnow
  obtain rfl := Option.some.inj (hn.symm.trans hnow)
  rw [Registry.get?_wakeExpired] at hq
  obtain ⟨p, hp, rfl⟩ := Option.map_eq_some_iff.1 hq
  unfold Process.checkTimer at hs htimer
  split at hs
  · cases hs
  · rename_i hahead
    rw [if_neg hahead] at htimer
    unfold Process.isOverdue at hahead
    rw [htimer] at hahead
    simpa [hs] using hahead

theorem Timely.refl (s : Traffic) : s.Timely s :=
  ⟨.refl, .inl rfl⟩

theorem Timely.trans (h : s.Timely t) (h' : t.Timely u) : s.Timely u := by
  refine ⟨Relation.ReflTransGen.trans h.calm h'.calm, ?_⟩
  rcases h'.timely with hnow | hpunctual
  · exact h.timely.imp hnow.trans fun hp => hp.calm h'.calm hnow
  · exact .inr hpunctual

theorem Step.calm (h : s.Step .nothing u) : s.Calm u :=
  .single h

/-- A step during which the clock stands still. -/
theorem Step.timely (h : s.Step .nothing u) (hn : u.now = s.now) : s.Timely u :=
  ⟨h.calm, .inl hn⟩

theorem timely_untold {r : Registry} (h : s.processes.Untold r) :
    s.Timely { s with processes := r } :=
  (Step.untold h).timely rfl

theorem timely_aside {n : Note} (h : n.isAside = true) : s.Timely (s.note n) :=
  (Step.aside h).timely rfl

theorem timely_asides {notes : List Note} (h : ∀ n ∈ notes, n.isAside = true) :
    ∀ s : Traffic, s.Timely { s with journal := notes.reverse ++ s.journal } := by
  induction notes with
  | nil => exact fun s => .refl s
  | cons n rest ih =>
    intro s
    have hrest := ih (fun n hn => h n (List.mem_cons_of_mem _ hn)) (s.note n)
    have hn : s.Timely (s.note n) := timely_aside (h n List.mem_cons_self)
    simpa [note] using hn.trans hrest

theorem Move.step (hd : d ≠ .nothing) (h : s.Step d t) (h' : t.Timely u) : Move d s u :=
  .asked hd (.refl s) h h'

theorem Move.before (h' : Move d t u) (h : s.Timely t) : Move d s u := by
  cases h' with
  | quiet hu => exact .quiet (h.trans hu)
  | ticked hu => exact .ticked (h.calm.trans hu)
  | asked hd ht hstep hu => exact .asked hd (h.trans ht) hstep hu
  | created ht hfree hnew hu => exact .created (h.trans ht) hfree hnew hu
  | ended ht hp hv hnone hu => exact .ended (h.trans ht) hp hv hnone hu
  | released ht hu => exact .released (h.trans ht) hu

theorem Move.after (h : Move d s t) (h' : t.Timely u) : Move d s u := by
  cases h with
  | quiet hu => exact .quiet (hu.trans h')
  | ticked hu => exact .ticked (hu.trans h'.calm)
  | asked hd ht hstep hu => exact .asked hd ht hstep (hu.trans h')
  | created ht hfree hnew hu => exact .created ht hfree hnew (hu.trans h')
  | ended ht hp hv hnone hu => exact .ended ht hp hv hnone (hu.trans h')
  | released ht hu => exact .released ht (hu.trans h')

/-- What every step, every creation, every end and the release of all processes keep is kept by
every move. -/
theorem Move.invariant {P : Traffic → Prop}
    (hstep : ∀ {s t : Traffic} {d : Deed}, P s → s.Step d t → P t)
    (hcreate : ∀ {s : Traffic} {p : Process} {entry : VirtAddr}, P s →
      s.processes.get? p.id = none → p.Newborn → P (s.create p entry))
    (hfinish : ∀ {s : Traffic} (id : ProcessId) (status : Word), P s → P (s.finish id status))
    (hrelease : ∀ {s : Traffic}, P s → P s.release) (hs : P s) (hm : Move d s u) : P u := by
  cases hm with
  | quiet hu => exact hu.calm.invariant hstep hs
  | ticked hu => exact Calm.invariant hstep hs hu
  | asked _ ht hv hu => exact hu.calm.invariant hstep (hstep (ht.calm.invariant hstep hs) hv)
  | created ht hfree hnew hu =>
    exact hu.calm.invariant hstep (hcreate (ht.calm.invariant hstep hs) hfree hnew)
  | @ended s t v u p id status ht _ hv _ hu =>
    have hended := hfinish id status (ht.calm.invariant hstep hs)
    exact hu.calm.invariant hstep (hv.calm.invariant hstep hended)
  | released ht hu =>
    exact hu.calm.invariant hstep (hrelease (ht.calm.invariant hstep hs))

/-! ### What was told stays told -/

theorem journal_unhook (s : Traffic) (id : ProcessId) :
    (s.unhook id).journal = s.journal ∨ ∃ count, (s.unhook id).journal =
      .unhooked count id :: s.journal := by
  unfold unhook
  simp only
  split
  · exact .inr ⟨_, rfl⟩
  · exact .inl rfl

theorem told_unhook (s : Traffic) (id : ProcessId) : s.journal <:+ (s.unhook id).journal := by
  rcases s.journal_unhook id with hj | ⟨count, hj⟩
  · exact hj ▸ List.suffix_refl _
  · exact hj ▸ List.suffix_cons _ _

theorem told_finish (s : Traffic) (id : ProcessId) (status : Word) :
    s.journal <:+ (s.finish id status).journal := by
  have hended := told_unhook ((s.erase id).note (.terminated id status)) id
  exact (List.suffix_cons _ _).trans hended

theorem Step.told (hs : s.Step d t) : s.journal <:+ t.journal := by
  cases hs with
  | untold => exact List.suffix_refl _
  | ticked => exact List.suffix_refl _
  | handed => exact List.suffix_append _ _
  | expired => exact List.suffix_append _ _
  | slept => exact List.suffix_refl _
  | paused => exact List.suffix_refl _
  | _ => exact List.suffix_cons _ _

/-! ### Deliveries and announcements -/

theorem clear_of_pending {i : Inbox} (h : i.pending = []) : i.clear = i := by
  obtain ⟨⟨items, capacity, fits⟩, dropped⟩ := i
  cases h
  rfl

/-- The inbox is emptied one event after the other. -/
theorem calm_deliver {items : List (ProcessId × Event)} :
    ∀ {s : Traffic}, s.inbox.pending = items → s.Calm { s with
      processes := s.processes.deliverAll items
      inbox := s.inbox.clear
      journal := (s.processes.deliverAllNotes items).reverse ++ s.journal } := by
  induction items with
  | nil =>
    intro s h
    rw [clear_of_pending h]
    exact .refl
  | cons item rest ih =>
    intro s h
    obtain ⟨owner, e⟩ := item
    have hrest : s.inbox.dropFront.pending = rest := by
      show s.inbox.pending.tail = rest
      rw [h]
      rfl
    have hfirst := Step.handed h
    have hcalm := hfirst.calm.trans (ih hrest)
    simpa [Registry.deliverAll, Registry.deliverAllNotes, Inbox.dropFront, Inbox.clear,
      BoundedQueue.clear, BoundedQueue.dropFront] using hcalm

/-- A trap announces itself to hooks of its line one after the other. -/
theorem calm_announceAll {frame : Registers} {line : UInt32} (hline : frame.line? = some line)
    {hooks : List Hook} :
    ∀ {s : Traffic}, (∀ h ∈ hooks, h ∈ s.hooks ∧ h.line = line.toUInt64) → s.Calm { s with
      inbox := Inbox.announceAll frame s.inbox hooks
      journal := (Inbox.announceAllNotes frame s.inbox hooks).reverse ++ s.journal } := by
  have hevent : Inbox.eventOf? frame = some (.interrupt line.toUInt64) := by
    unfold Inbox.eventOf?
    rw [hline]
  induction hooks with
  | nil => exact fun _ => .refl
  | cons h rest ih =>
    intro s hall
    obtain ⟨hmem, hl⟩ := hall h List.mem_cons_self
    have hrest := fun g hg => hall g (List.mem_cons_of_mem h hg)
    cases hroom : s.inbox.hasRoom with
    | true =>
      have hfirst := (Step.announced hmem hroom).calm
      have hcalm := hfirst.trans (ih hrest)
      simpa [Inbox.announceAll, Inbox.announceAllNotes, Inbox.announce, Inbox.announceNotes,
        hevent, hroom, hl, note] using hcalm
    | false =>
      have hfirst := (Step.inboxFull hmem hroom).calm
      have hcalm := hfirst.trans (ih hrest)
      simpa [Inbox.announceAll, Inbox.announceAllNotes, Inbox.announce, Inbox.announceNotes,
        hevent, hroom, hl, note] using hcalm

/-- The answers to the waiters of a process that ended. -/
theorem timely_deliverExit (s : Traffic) (id : ProcessId) (status : Word) :
    (s.finish id status).Timely
      (({ s with processes := (s.processes.erase id).deliverExit id status }.note
        (.terminated id status)).unhook id) := by
  have hanswered : (s.finish id status).processes.Untold
      ((s.processes.erase id).deliverExit id status) := by
    unfold finish
    rw [processes_unhook]
    exact Registry.untold_deliverExit _ id status
  have htimely := timely_untold hanswered
  unfold finish at htimely
  rw [← unhook_processes] at htimely
  exact htimely

end Traffic

end Nucleus
