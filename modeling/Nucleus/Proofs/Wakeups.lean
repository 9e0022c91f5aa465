import Mathlib.Data.List.Nodup
import Nucleus.Proofs.Provenance

/-!
# Nucleus.Proofs.Wakeups

Wakeups are neither lost nor made up. A wakeup ends the sleep it finds, or it stays pending until a
request to sleep uses it up; nothing else takes one away, whatever happens to other processes and
whatever else happens to this one. So a process is followed through the traffic with an account of
its wakeups and its sleeps, which balances after each step and therefore after each run.

* `Account`: what there was before, what was told and done meanwhile, and what there is afterwards.
* `Step.accounts`, `Move.accounts`, `accounts_run`: it balances.
* `act_spare`, `act_sleep`: a request to sleep returns if a wakeup is pending, and blocks otherwise.
* `naps_of_undisturbed`: which requests to sleep return while nobody wakes the process.
* `wakeups_conserved`: all of this, for a process that stays registered.
-/

namespace Nucleus

/-! ### Accounts -/

/-- Whom a wakeup, an event handed over or the end of a sleep concerns. -/
def Note.about? : Note → Option ProcessId
  | woken id _ => some id
  | delivered _ owner => some owner
  | queueFull _ owner => some owner
  | timerExpired id => some id
  | _ => none

/-- Whom a wakeup or a sleep that was asked for concerns. -/
def Deed.about? : Deed → Option ProcessId
  | wake id => some id
  | sleep id => some id
  | spare id => some id
  | pause id => some id
  | _ => none

def Note.wakes (id : ProcessId) : Note → Bool
  | woken j _ => j == id
  | _ => false

/-- How many wakeups the process with an identifier got. -/
def wakes (id : ProcessId) (j : Journal) : Nat :=
  j.countP (Note.wakes id)

/-- How many of them found it sleeping. -/
def roused (id : ProcessId) (j : Journal) : Nat :=
  j.count (.woken id true)

/-- How many of its sleeps ended by themselves. -/
def expiries (id : ProcessId) (j : Journal) : Nat :=
  j.count (.timerExpired id)

/-- The wakeups that are pending, if there is a process. -/
def pendingWakeups : Option Process → Nat
  | none => 0
  | some p => p.wakeups

/-- One if there is a process that sleeps, and none otherwise. -/
def sleepsOn : Option Process → Nat
  | none => 0
  | some p => if p.state = .sleeping then 1 else 0

/-- The deed is a request of the process to sleep. -/
def Deed.isNap (id : ProcessId) : Deed → Bool
  | sleep j => j == id
  | spare j => j == id
  | _ => false

/-- The account of a stretch of the traffic for the process with an identifier. Each wakeup comes
from an event or from a request; it ends a sleep, is used up in the place of one, or is pending
still. Each sleep was asked for; it goes on, or a wakeup or the clock ended it. -/
structure Account (id : ProcessId) (before after : Option Process) (deeds : List Deed)
    (told : Journal) : Prop where
  sent : wakes id told = heard id told + deeds.count (.wake id)
  wakeups : pendingWakeups after + roused id told + deeds.count (.spare id) =
    pendingWakeups before + wakes id told
  sleeps : sleepsOn after + roused id told + expiries id told =
    sleepsOn before + deeds.count (.sleep id) + deeds.count (.pause id)

section Account

variable {id j : ProcessId} {o o' o'' : Option Process} {d : Deed} {ds ds' : List Deed}
  {told told' : Journal}

theorem Account.trans (h : Account id o o' ds told) (h' : Account id o' o'' ds' told') :
    Account id o o'' (ds ++ ds') (told' ++ told) := by
  obtain ⟨hsent, hwakeups, hsleeps⟩ := h
  obtain ⟨hsent', hwakeups', hsleeps'⟩ := h'
  simp only [wakes, roused, expiries, heard] at hsent hsent' hwakeups hwakeups' hsleeps hsleeps'
  refine ⟨?_, ?_, ?_⟩ <;>
    simp only [wakes, roused, expiries, heard, List.countP_append, List.count_append] <;> omega

theorem told_of_others (h : ∀ n ∈ told, n.about? ≠ some id) :
    wakes id told = 0 ∧ heard id told = 0 ∧ roused id told = 0 ∧ expiries id told = 0 := by
  refine ⟨List.countP_eq_zero.2 ?_, List.countP_eq_zero.2 ?_, List.count_eq_zero.2 ?_,
    List.count_eq_zero.2 ?_⟩
  · intro n hn hw
    cases n with
    | woken j slept => exact h _ hn (congrArg some (eq_of_beq hw))
    | _ => cases hw
  · intro n hn hw
    cases n with
    | delivered e owner => exact h _ hn (congrArg some (eq_of_beq hw))
    | queueFull e owner => exact h _ hn (congrArg some (eq_of_beq hw))
    | _ => cases hw
  · intro hn
    exact h _ hn rfl
  · intro hn
    exact h _ hn rfl

theorem done_to_others (h : d.about? ≠ some id) :
    [d].count (.wake id) = 0 ∧ [d].count (.spare id) = 0 ∧ [d].count (.sleep id) = 0 ∧
      [d].count (.pause id) = 0 := by
  simp only [List.count_eq_zero, List.mem_singleton]
  refine ⟨?_, ?_, ?_, ?_⟩ <;> rintro rfl <;> exact h rfl

/-- What happens to others is of no account. -/
theorem account_others (hw : pendingWakeups o' = pendingWakeups o) (hs : sleepsOn o' = sleepsOn o)
    (htold : ∀ n ∈ told, n.about? ≠ some id) (hd : d.about? ≠ some id) :
    Account id o o' [d] told := by
  obtain ⟨hwakes, hheard, hroused, hexpiries⟩ := told_of_others htold
  obtain ⟨hwake, hspare, hsleep, hpause⟩ := done_to_others hd
  refine ⟨?_, ?_, ?_⟩ <;> omega

/-- One process changes, with what is told and done about it. -/
theorem account_modify {r : Registry} {p : Process} {f : Process → Process}
    (hf : ∀ p, (f p).id = p.id) (hp : r.get? j = some p)
    (hself : Account j (some p) (some (f p)) [d] told)
    (htold : ∀ n ∈ told, n.about? = none ∨ n.about? = some j)
    (hd : d.about? = none ∨ d.about? = some j) (id : ProcessId) :
    Account id (r.get? id) ((r.modify j f hf).get? id) [d] told := by
  rw [Registry.get?_modify]
  by_cases hid : id = j
  · subst hid
    rw [if_pos rfl, hp]
    exact hself
  · have hother : some j ≠ some id := fun e => hid (Option.some.inj e).symm
    rw [if_neg hid]
    refine account_others rfl rfl (fun n hn => ?_) ?_
    · rcases htold n hn with h | h <;> rw [h]
      · rintro ⟨⟩
      · exact hother
    · rcases hd with h | h <;> rw [h]
      · rintro ⟨⟩
      · exact hother

theorem count_expiryNotes (r : Registry) (now : Instant) (id : ProcessId) :
    expiries id (r.expiryNotes now).reverse =
      if (r.get? id).any (Process.isOverdue now) then 1 else 0 := by
  have hnodup : (r.expiryNotes now).Nodup := by
    unfold Registry.expiryNotes
    refine List.pairwise_map.2 ((r.sorted.filter _).imp fun {p q} hlt => ?_)
    intro heq
    rw [Note.timerExpired.inj heq] at hlt
    exact UInt64.lt_irrefl _ hlt
  unfold expiries
  rw [List.count_reverse, hnodup.count]
  congr 1
  simp only [Registry.expiryNotes, List.mem_map, List.mem_filter, Note.timerExpired.injEq,
    Option.any_eq_true, Registry.get?_eq_some_iff, eq_iff_iff]
  constructor
  · rintro ⟨p, ⟨hp, hover⟩, hid⟩
    exact ⟨p, ⟨hp, hid⟩, hover⟩
  · rintro ⟨p, ⟨hp, hid⟩, hover⟩
    exact ⟨p, ⟨hp, hover⟩, hid⟩

end Account

namespace Process

variable {p : Process} {id : ProcessId}

/-- A wakeup ends a sleep or stays pending. -/
theorem wake_account (p : Process) (id : ProcessId) :
    pendingWakeups (some p.wake) + roused id [.woken id (p.state == .sleeping)] = p.wakeups + 1 ∧
      sleepsOn (some p.wake) + roused id [.woken id (p.state == .sleeping)] =
        sleepsOn (some p) := by
  by_cases hs : p.state = .sleeping
  · simp [wake_of_sleeping hs, hs, pendingWakeups, sleepsOn, roused]
  · simp [wake_of_awake hs, hs, pendingWakeups, sleepsOn, roused]

theorem account_wake (p : Process) (id : ProcessId) :
    Account id (some p) (some p.wake) [.wake id] [.woken id (p.state == .sleeping)] := by
  obtain ⟨hw, hs⟩ := p.wake_account id
  have hsent : Nucleus.wakes id [.woken id (p.state == .sleeping)] = 1 := by
    simp [Nucleus.wakes, Note.wakes]
  have hrest : heard id [.woken id (p.state == .sleeping)] = 0 ∧
      expiries id [.woken id (p.state == .sleeping)] = 0 := by
    simp [heard, Note.handed?, expiries]
  refine ⟨?_, ?_, ?_⟩ <;> simp [hsent, hrest, pendingWakeups] at *
  · omega
  · omega

/-- An event is a wakeup, with room for it or without. -/
theorem account_receive {r : Registry} (hp : r.get? id = some p) (e : Event) :
    Account id (some p) (some (p.receive e)) [.nothing] (r.deliveryNotes id e).reverse := by
  obtain ⟨hw, hs⟩ := wake_account { p with events := p.events.push e } id
  have htold : wakes id (r.deliveryNotes id e).reverse = 1 ∧
      heard id (r.deliveryNotes id e).reverse = 1 ∧
      roused id (r.deliveryNotes id e).reverse = roused id [.woken id (p.state == .sleeping)] ∧
      expiries id (r.deliveryNotes id e).reverse = 0 := by
    unfold Registry.deliveryNotes
    rw [hp]
    cases hroom : p.events.hasRoom <;>
      simp [Nucleus.wakes, Note.wakes, heard, Note.handed?, roused, expiries, hroom,
        List.count_cons]
  obtain ⟨hwakes, hheard, hroused, hexpiries⟩ := htold
  simp only [Process.receive] at hw hs ⊢
  refine ⟨?_, ?_, ?_⟩ <;> simp [hwakes, hheard, hroused, hexpiries, pendingWakeups, sleepsOn] at *
  · omega
  · omega

theorem account_checkTimer {r : Registry} (hp : r.get? id = some p) (now : Instant) :
    Account id (some p) (some (p.checkTimer now)) [.nothing] (r.expiryNotes now).reverse := by
  have hmute : wakes id (r.expiryNotes now).reverse = 0 ∧
      heard id (r.expiryNotes now).reverse = 0 ∧ roused id (r.expiryNotes now).reverse = 0 := by
    simp [Nucleus.wakes, Note.wakes, heard, Note.handed?, roused, Registry.expiryNotes,
      List.countP_eq_zero, List.count_eq_zero]
  have hexpiries := count_expiryNotes r now id
  rw [hp, Option.any_some] at hexpiries
  obtain ⟨hwakes, hheard, hroused⟩ := hmute
  by_cases hover : p.isOverdue now = true
  · have hstate := state_of_isOverdue hover
    rw [if_pos hover] at hexpiries
    refine ⟨?_, ?_, ?_⟩ <;>
      simp [hwakes, hheard, hroused, hexpiries, pendingWakeups, sleepsOn, checkTimer, hover, hstate]
  · rw [if_neg hover] at hexpiries
    refine ⟨?_, ?_, ?_⟩ <;>
      simp [hwakes, hheard, hroused, hexpiries, pendingWakeups, sleepsOn, checkTimer, hover]

theorem account_spare (hs : p.sleepOutcome = .alreadyWoken) (timer : SleepTimer) :
    Account id (some p) (some (p.sleep timer)) [.spare id] [.wakeupConsumed id] := by
  have hpos := sleepOutcome_eq_alreadyWoken_iff.1 hs
  rw [sleep_of_alreadyWoken hs]
  refine ⟨?_, ?_, ?_⟩ <;>
    simp [Nucleus.wakes, Note.wakes, heard, Note.handed?, roused, expiries, pendingWakeups,
      sleepsOn]
  omega

theorem account_sleep (hs : p.sleepOutcome = .willSleep) (hawake : p.state ≠ .sleeping)
    (timer : SleepTimer) : Account id (some p) (some (p.sleep timer)) [.sleep id] [] := by
  rw [sleep_of_willSleep hs]
  refine ⟨?_, ?_, ?_⟩ <;>
    simp [Nucleus.wakes, heard, roused, expiries, pendingWakeups, sleepsOn, hawake]

theorem account_sleepUntil (hawake : p.state ≠ .sleeping) (deadline : Instant) :
    Account id (some p) (some (p.sleepUntil deadline)) [.pause id] [] := by
  refine ⟨?_, ?_, ?_⟩ <;>
    simp [Nucleus.wakes, heard, roused, expiries, pendingWakeups, sleepsOn, sleepUntil, hawake]

theorem account_dropEvent (p : Process) (e : Event) :
    Account id (some p) (some p.dropEvent) [.take id] [.taken e id] :=
  account_others rfl rfl (by simp [Note.about?]) (by rintro ⟨⟩)

end Process

namespace Traffic

variable {s t u : Traffic} {d : Deed} {id : ProcessId}

theorem about?_aside {n : Note} (h : n.isAside = true) : n.about? = none := by
  cases n <;> first | rfl | cases h

theorem account_untold {r r' : Registry} (h : r.Untold r') (id : ProcessId) :
    Account id (r.get? id) (r'.get? id) [.nothing] [] := by
  cases hp : r.get? id with
  | none =>
    rw [h.eq_none_iff.2 hp]
    exact account_others rfl rfl (by rintro n ⟨⟩) (by rintro ⟨⟩)
  | some p =>
    obtain ⟨q, hq, hpq⟩ := h.forth hp
    rw [hq]
    refine account_others hpq.wakeups ?_ (by rintro n ⟨⟩) (by rintro ⟨⟩)
    simp only [sleepsOn, hpq.sleeping_iff]

theorem account_handed (r : Registry) (owner : ProcessId) (e : Event) (id : ProcessId) :
    Account id (r.get? id) ((r.deliver owner e).get? id) [.nothing]
      (r.deliveryNotes owner e).reverse := by
  cases hp : r.get? owner with
  | none =>
    have hsame : (r.deliver owner e).get? id = r.get? id := by
      rw [Registry.get?_deliver]
      split
      · rename_i hid
        rw [hid, hp]
        rfl
      · rfl
    rw [hsame]
    refine account_others rfl rfl ?_ (by rintro ⟨⟩)
    simp [Registry.deliveryNotes, hp, Note.about?]
  | some p =>
    refine account_modify (Process.id_receive e) hp (Process.account_receive hp e) ?_ (.inl rfl) id
    intro n hn
    simp only [Registry.deliveryNotes, hp, List.mem_reverse, List.mem_cons, List.not_mem_nil,
      or_false] at hn
    rcases hn with rfl | rfl
    · split <;> exact .inr rfl
    · exact .inr rfl

theorem account_expired (r : Registry) (now : Instant) (id : ProcessId) :
    Account id (r.get? id) ((r.wakeExpired now).get? id) [.nothing]
      (r.expiryNotes now).reverse := by
  rw [Registry.get?_wakeExpired]
  cases hp : r.get? id with
  | some p => exact Process.account_checkTimer hp now
  | none =>
    refine account_others rfl rfl (fun n hn habout => ?_) (by rintro ⟨⟩)
    simp only [Registry.expiryNotes, List.mem_reverse, List.mem_map, List.mem_filter] at hn
    obtain ⟨p, ⟨hmem, _⟩, rfl⟩ := hn
    have hget := Registry.get?_eq_some_iff.2 ⟨hmem, Option.some.inj habout⟩
    rw [hp] at hget
    cases hget

/-- The account of what happens between two states of the traffic. -/
def Accounts (s : Traffic) (id : ProcessId) (ds : List Deed) (t : Traffic) : Prop :=
  ∃ told, t.journal = told ++ s.journal ∧
    Account id (s.processes.get? id) (t.processes.get? id) ds told

theorem Accounts.refl (s : Traffic) (id : ProcessId) : s.Accounts id [] s :=
  ⟨[], rfl, rfl, rfl, rfl⟩

theorem Accounts.trans {ds ds' : List Deed} (h : s.Accounts id ds t) (h' : t.Accounts id ds' u) :
    s.Accounts id (ds ++ ds') u := by
  obtain ⟨told, hj, ha⟩ := h
  obtain ⟨told', hj', ha'⟩ := h'
  exact ⟨told' ++ told, by rw [hj', hj, List.append_assoc], ha.trans ha'⟩

theorem Step.accounts (hs : s.Step d t) (id : ProcessId) : s.Accounts id [d] t := by
  cases hs with
  | untold hr => exact ⟨[], rfl, account_untold hr id⟩
  | @aside n hn =>
    refine ⟨[n], rfl, account_others rfl rfl ?_ (by rintro ⟨⟩)⟩
    simp [about?_aside hn]
  | ticked => exact ⟨[], rfl, account_others rfl rfl (by rintro n ⟨⟩) (by rintro ⟨⟩)⟩
  | announced => exact ⟨[_], rfl, account_others rfl rfl (by simp [Note.about?]) (by rintro ⟨⟩)⟩
  | inboxFull => exact ⟨[_], rfl, account_others rfl rfl (by simp [Note.about?]) (by rintro ⟨⟩)⟩
  | @handed owner e => exact ⟨_, rfl, account_handed s.processes owner e id⟩
  | @expired now => exact ⟨_, rfl, account_expired s.processes now id⟩
  | @taken j p e hp =>
    exact ⟨[_], rfl, account_modify Process.id_dropEvent hp (p.account_dropEvent e)
      (by simp [Note.about?]) (.inl rfl) id⟩
  | @woken j p hp =>
    exact ⟨[_], rfl, account_modify Process.id_wake hp (p.account_wake j) (by simp [Note.about?])
      (.inr rfl) id⟩
  | spared hp hs =>
    exact ⟨[_], rfl, account_modify (Process.id_sleep _) hp (Process.account_spare hs _)
      (by simp [Note.about?]) (.inr rfl) id⟩
  | slept hp hawake hs =>
    exact ⟨[], rfl, account_modify (Process.id_sleep _) hp (Process.account_sleep hs hawake _)
      (by rintro n ⟨⟩) (.inr rfl) id⟩
  | paused hp hawake =>
    exact ⟨[], rfl, account_modify (Process.id_sleepUntil _) hp
      (Process.account_sleepUntil hawake _) (by rintro n ⟨⟩) (.inr rfl) id⟩
  | hooked => exact ⟨[_], rfl, account_others rfl rfl (by simp [Note.about?]) (by rintro ⟨⟩)⟩

theorem Calm.accounts (h : s.Calm t) (id : ProcessId) : s.Accounts id [] t := by
  refine h.invariant (P := fun t => s.Accounts id [] t) (fun ht hs => ?_) (.refl s id)
  obtain ⟨told, hj, ha⟩ := ht.trans (hs.accounts id)
  exact ⟨told, hj, by simpa using ha.sent, by simpa using ha.wakeups, by simpa using ha.sleeps⟩

theorem accounts_create {p : Process} (hfree : s.processes.get? p.id = none) (hnew : p.Newborn)
    (entry : VirtAddr) (id : ProcessId) : s.Accounts id [.create p.id] (s.create p entry) := by
  have hafter := get?_create s p entry id
  have htold : ∀ n ∈ [Note.created p.id entry p.space], n.about? ≠ some id := by
    simp [Note.about?]
  refine ⟨[_], rfl, ?_⟩
  by_cases hid : p.id = id
  · subst hid
    rw [hafter, if_pos rfl, hfree]
    refine account_others hnew.wakeups ?_ htold (by rintro ⟨⟩)
    simp [sleepsOn, hnew.state]
  · rw [hafter, if_neg hid]
    exact account_others rfl rfl htold (by rintro ⟨⟩)

/-- The end of another process is of no account. -/
theorem accounts_finish (s : Traffic) {j : ProcessId} (hne : id ≠ j) (status : Word) :
    s.Accounts id [.finish j] (s.finish j status) := by
  have hafter : (s.finish j status).processes.get? id = s.processes.get? id := by
    rw [get?_finish, if_neg hne]
  rw [Accounts, hafter]
  rcases journal_unhook ((s.erase j).note (.terminated j status)) j with hj | ⟨count, hj⟩
  · exact ⟨[_], hj, account_others rfl rfl (by simp [Note.about?]) (by rintro ⟨⟩)⟩
  · exact ⟨[_, _], hj, account_others rfl rfl (by simp [Note.about?]) (by rintro ⟨⟩)⟩

/-- The account of a move, of which a process comes out. -/
theorem Move.accounts (hm : s.Move d u) (hid : u.Has id) : s.Accounts id [d] u := by
  cases hm with
  | quiet hu =>
    obtain ⟨told, hj, ha⟩ := hu.calm.accounts id
    exact ⟨told, hj, ha.sent, ha.wakeups, ha.sleeps⟩
  | ticked hu =>
    obtain ⟨told, hj, ha⟩ := Calm.accounts hu id
    exact ⟨told, hj, ha.sent, ha.wakeups, ha.sleeps⟩
  | asked _ ht hv hu =>
    exact ((ht.calm.accounts id).trans (hv.accounts id)).trans (hu.calm.accounts id)
  | created ht hfree hnew hu =>
    exact ((ht.calm.accounts id).trans (accounts_create hfree hnew _ id)).trans
      (hu.calm.accounts id)
  | @ended s t v u p j status ht _ hv _ hu =>
    have hne : id ≠ j := by
      rintro rfl
      exact not_has_ended (hv.trans hu).calm hid
    have hended := (ht.calm.accounts id).trans (t.accounts_finish hne status)
    exact hended.trans ((hv.calm.accounts id).trans (hu.calm.accounts id))
  | released _ hu => exact absurd hid (not_has_released hu.calm)

end Traffic

/-! ### Runs -/

namespace Machine

variable {m n : Machine} {run : List (Action × Machine)} {id : ProcessId}

/-- What the actions of a run come to. -/
def deeds (m : Machine) : List (Action × Machine) → List Deed
  | [] => []
  | (a, n) :: rest => m.deed a :: n.deeds rest

/-- The machine that a run ends in. -/
def final (m : Machine) : List (Action × Machine) → Machine
  | [] => m
  | (_, n) :: rest => n.final rest

/-- A process is registered under the identifier after each action of a run. Since no action ends a
process and creates another one, it is always the same. -/
def Stays (id : ProcessId) (run : List (Action × Machine)) : Prop :=
  ∀ s ∈ run, s.2.traffic.Has id

theorem accounts_run (hr : Run m run) (hm : Reachable m) (hid : Stays id run) :
    m.traffic.Accounts id (m.deeds run) (m.final run).traffic := by
  induction hr with
  | nil => exact .refl _ id
  | @cons m n a rest ha _ ih =>
    have hmoved := (moved_act (bound_of_reachable hm) ha).traffic
    have hfirst := hmoved.accounts (hid _ List.mem_cons_self)
    exact hfirst.trans (ih (hm.act ha) fun s hs => hid s (List.mem_cons_of_mem _ hs))

/-! ### Requests to sleep -/

/-- How a request to sleep ends by itself. -/
def timerOf : Option Instant → SleepTimer
  | none => .indefinite
  | some deadline => .until deadline

theorem enterSleep_of_ahead {deadline : Option Instant}
    (h : ∀ d, deadline = some d → m.kernel.isAhead d = true) :
    m.enterSleep deadline = m.sleep (timerOf deadline) := by
  cases deadline with
  | none => rfl
  | some d =>
    have hahead := h d rfl
    unfold Kernel.isAhead at hahead
    unfold enterSleep
    cases hn : m.kernel.now? with
    | none =>
      rw [hn] at hahead
      cases hahead
    | some now =>
      rw [hn] at hahead
      simp only [Bool.not_eq_true'] at hahead
      simp only [hahead, Bool.false_eq_true, if_false]
      rfl

theorem deed_enterSleep {p : Process} {target : ProcessId} {deadline : Option Instant}
    (hp : m.kernel.currentProcess? = some p)
    (hasked : m.asked m.frame.request = some (target, .enterSleep deadline))
    (hahead : ∀ d, deadline = some d → m.kernel.isAhead d = true) :
    m.deed .request = m.kernel.rest p.id := by
  rw [deed_request hp hasked]
  cases deadline with
  | none => rfl
  | some d => exact if_pos (hahead d rfl)

/-- A request to sleep of a process with pending wakeups uses up one of them and returns. -/
theorem act_spare (hm : Reachable m) {p : Process} {target : ProcessId}
    {deadline : Option Instant} (hp : m.kernel.currentProcess? = some p)
    (hasked : m.asked m.frame.request = some (target, .enterSleep deadline))
    (hahead : ∀ d, deadline = some d → m.kernel.isAhead d = true) (hpos : 0 < p.wakeups) :
    ∃ n, m.act .request = .done n () ∧ n.frame = m.frame.withResult 0 ∧
      n.kernel = { m.kernel with processes :=
        m.kernel.processes.modify p.id fun q => { q with wakeups := q.wakeups - 1 } } := by
  obtain ⟨hcurrent, hget⟩ := currentProcess?_eq_some hp
  have hused : m.kernel.processes.modify p.id (Process.sleep (timerOf deadline)) =
      m.kernel.processes.modify p.id fun q => { q with wakeups := q.wakeups - 1 } := by
    refine Registry.modify_congr fun q hq => ?_
    rw [hget] at hq
    cases hq
    exact Process.sleep_of_alreadyWoken (Process.sleepOutcome_eq_alreadyWoken_iff.2 hpos) _
  have hl := locks_of_reachable hm
  obtain ⟨note, hact⟩ := act_answered hl hp hasked
  let v := ((m.note note).modifyProcess p.id (Process.sleep (timerOf deadline))).note
    (.wakeupConsumed p.id)
  rw [← hused]
  refine ⟨_, hact (v := v) hl hcurrent fun locks => ?_, rfl, rfl⟩
  let held := ({ m with locks } : Machine).note note
  show held.enterSleep deadline = _
  rw [enterSleep_of_ahead (m := held) hahead, sleep, withCurrent_eq (m := held) hp,
    Process.sleepOutcome_eq_alreadyWoken_iff.2 hpos]
  rfl

theorem scheduler_completed (m : Machine) (caller : ProcessId) (c : Completion) :
    (m.completed caller c).kernel.scheduler = m.kernel.scheduler := by
  cases c with
  | deferred => rfl
  | ready r =>
    show (m.answer caller r.encode).kernel.scheduler = _
    unfold answer
    split <;> rfl

theorem scheduler_noteRefusal (m : Machine) (caller : ProcessId) (code : OperationCode)
    (c : Completion) : (m.noteRefusal caller code c).kernel.scheduler = m.kernel.scheduler := by
  unfold noteRefusal
  split <;> rfl

/-- A request to sleep of a process without pending wakeups is a decision of the scheduler. -/
theorem act_sleep {p : Process} {target : ProcessId} {deadline : Option Instant}
    (hp : m.kernel.currentProcess? = some p)
    (hasked : m.asked m.frame.request = some (target, .enterSleep deadline))
    (hahead : ∀ d, deadline = some d → m.kernel.isAhead d = true) (hzero : p.wakeups = 0)
    (h : m.act .request = .done n ()) :
    n.kernel.scheduler.switches = m.kernel.scheduler.switches + 1 := by
  obtain ⟨locks, locks', w, hw, rfl, _⟩ := withKernel_done h
  obtain ⟨p', v, c, hp', hv, rfl⟩ := request_done hw
  cases hp.symm.trans hp'
  let held : Machine := { m with locks }
  obtain ⟨code, hserve⟩ := serve_asked (m := held) hp hasked
  rw [show held.serve held.frame.request = _ from hserve] at hv
  obtain ⟨x, c', hx, hdone⟩ := Outcome.andThen_eq_done_iff.1 hv
  cases hdone
  let noted := held.note (.requested p.id code m.frame.request.target m.frame.request.argument)
  replace hx : noted.enterSleep deadline = .done x c := hx
  rw [enterSleep_of_ahead (m := noted) hahead, sleep, withCurrent_eq (m := noted) hp,
    Process.sleepOutcome_eq_willSleep_iff.2 hzero] at hx
  obtain ⟨y, id, hy, hdone⟩ := Outcome.andThen_eq_done_iff.1 hx
  cases hdone
  have hswitches := (decision_of_schedule hy).switches
  show ((x.noteRefusal p.id code _).completed p.id _).kernel.scheduler.switches = _
  rw [scheduler_completed, scheduler_noteRefusal]
  exact hswitches

/-! ### Undisturbed sleepers -/

theorem roused_of_undisturbed {told : Journal} (h : wakes id told = 0) : roused id told = 0 := by
  refine List.count_eq_zero.2 fun hmem => ?_
  have hnone := List.countP_eq_zero.1 h _ hmem
  simp [Note.wakes] at hnone

/-- Who is not woken during a stretch of the traffic is not woken during its parts. -/
theorem undisturbed_parts {told first later j : Journal} (h : told ++ j = later ++ (first ++ j))
    (hw : wakes id told = 0) : wakes id first = 0 ∧ wakes id later = 0 := by
  have hsplit : told = later ++ first :=
    List.append_cancel_right (h.trans (List.append_assoc _ _ _).symm)
  rw [hsplit, wakes, List.countP_append] at hw
  exact ⟨(Nat.add_eq_zero_iff.1 hw).2, (Nat.add_eq_zero_iff.1 hw).1⟩

theorem isNap_cases {d : Deed} (h : d.isNap id = true) : d = .sleep id ∨ d = .spare id := by
  cases d with
  | sleep j => exact .inl (congrArg Deed.sleep (eq_of_beq h))
  | spare j => exact .inr (congrArg Deed.spare (eq_of_beq h))
  | _ => cases h

/-- While nobody wakes a process, its requests to sleep use up the pending wakeups one at a time,
and nothing else does. -/
theorem nap_of_undisturbed {o o' : Option Process} {d : Deed} {told : Journal}
    (h : Account id o o' [d] told) (hw : wakes id told = 0)
    (hsleep : d = .sleep id → pendingWakeups o = 0) :
    (d = .spare id ∧ pendingWakeups o = pendingWakeups o' + 1) ∨
      (d = .sleep id ∧ pendingWakeups o = 0 ∧ pendingWakeups o' = 0) ∨
      (d.isNap id = false ∧ pendingWakeups o' = pendingWakeups o) := by
  have hkept := h.wakeups
  rw [roused_of_undisturbed hw, hw] at hkept
  by_cases hnap : d.isNap id = true
  · rcases isNap_cases hnap with hd | hd
    · have hzero := hsleep hd
      exact .inr (.inl ⟨hd, hzero, by omega⟩)
    · rw [hd, List.count_singleton_self] at hkept
      exact .inl ⟨hd, hkept.symm⟩
  · have hother : d ≠ .spare id := by
      rintro rfl
      simp [Deed.isNap] at hnap
    rw [List.count_eq_zero.2 (by simpa using hother.symm)] at hkept
    exact .inr (.inr ⟨eq_false_of_ne_true hnap, hkept⟩)

/-- As long as nobody wakes a process, its requests to sleep use up the pending wakeups first, and
block from then on. -/
theorem naps_of_undisturbed (hr : Run m run) (hm : Reachable m) (hid : Stays id run) :
    ∀ {told : Journal}, (m.final run).journal = told ++ m.journal → wakes id told = 0 →
      ∃ l, (m.deeds run).filter (Deed.isNap id) <+:
        List.replicate (pendingWakeups (m.kernel.processes.get? id)) (.spare id) ++
          List.replicate l (.sleep id) := by
  induction hr with
  | nil => exact fun _ _ => ⟨0, List.nil_prefix⟩
  | @cons m n a rest ha hrest ih =>
    intro told htold hquiet
    have hrest' : Stays id rest := fun s hs => hid s (List.mem_cons_of_mem _ hs)
    have hmoved := (moved_act (bound_of_reachable hm) ha).traffic
    obtain ⟨first, hfirst, haccount⟩ := hmoved.accounts (hid _ List.mem_cons_self)
    obtain ⟨later, hlater, _⟩ := accounts_run hrest (hm.act ha) hrest'
    replace haccount : Account id (m.kernel.processes.get? id) (n.kernel.processes.get? id)
      [m.deed a] first := haccount
    replace hfirst : n.journal = first ++ m.journal := hfirst
    replace hlater : (n.final rest).journal = later ++ n.journal := hlater
    obtain ⟨hfirst', hlater'⟩ :=
      undisturbed_parts (htold.symm.trans (hlater.trans (by rw [hfirst]))) hquiet
    obtain ⟨l, hl⟩ := ih (hm.act ha) hrest' hlater hlater'
    -- Who goes to sleep has no wakeup pending.
    have hsleep : m.deed a = .sleep id → pendingWakeups (m.kernel.processes.get? id) = 0 := by
      intro hd
      obtain ⟨p, hp, hzero⟩ := deed_eq_sleep hd
      rw [hp]
      exact hzero
    rw [deeds, List.filter_cons]
    have hnap := nap_of_undisturbed haccount hfirst' hsleep
    rcases hnap with ⟨hd, hone⟩ | ⟨hd, hnone, hnone'⟩ | ⟨hd, hsame⟩
    · rw [hone, hd, if_pos (show Deed.isNap id (.spare id) = true from beq_self_eq_true id)]
      exact ⟨l, List.prefix_cons_iff.2 (.inr ⟨_, rfl, hl⟩)⟩
    · rw [hnone'] at hl
      rw [hnone, hd, if_pos (show Deed.isNap id (.sleep id) = true from beq_self_eq_true id)]
      exact ⟨l + 1, List.prefix_cons_iff.2 (.inr ⟨_, rfl, hl⟩)⟩
    · rw [hd, if_neg Bool.false_ne_true, ← hsame]
      exact ⟨l, hl⟩

/-- A process is followed from some time on, perhaps from just before its creation, over any run in
which it stays registered. Of all its wakeups, each of which comes with an event or with a request
to resume it, those are pending that did not find it sleeping and that no request to sleep has used
up. Each of those that found it sleeping ended one of its sleeps, which the clock did not end. A
request to sleep that is not refused and whose deadline lies ahead uses up a pending wakeup, if
there is one, and returns; if there is none it is a decision of the scheduler. So as long as nobody
wakes the process, as many requests to sleep return as there are wakeups pending, and the later
ones block. -/
theorem wakeups_conserved (hm : Reachable m) (hr : Run m run) (hid : Stays id run) :
    (∃ told, (m.final run).journal = told ++ m.journal ∧
      wakes id told = heard id told + (m.deeds run).count (.wake id) ∧
      pendingWakeups ((m.final run).kernel.processes.get? id) + roused id told +
          (m.deeds run).count (.spare id) =
        pendingWakeups (m.kernel.processes.get? id) + wakes id told ∧
      sleepsOn ((m.final run).kernel.processes.get? id) + roused id told + expiries id told =
        sleepsOn (m.kernel.processes.get? id) + (m.deeds run).count (.sleep id) +
          (m.deeds run).count (.pause id) ∧
      (wakes id told = 0 → ∃ l, (m.deeds run).filter (Deed.isNap id) <+:
        List.replicate (pendingWakeups (m.kernel.processes.get? id)) (.spare id) ++
          List.replicate l (.sleep id))) ∧
    ∀ p target deadline, m.kernel.currentProcess? = some p →
      m.asked m.frame.request = some (target, .enterSleep deadline) →
      (∀ d, deadline = some d → m.kernel.isAhead d = true) →
        (0 < p.wakeups → m.deed .request = .spare p.id ∧
          ∃ n, m.act .request = .done n () ∧ n.frame = m.frame.withResult 0 ∧
            n.kernel = { m.kernel with processes :=
              m.kernel.processes.modify p.id fun q => { q with wakeups := q.wakeups - 1 } }) ∧
        (p.wakeups = 0 → m.deed .request = .sleep p.id ∧
          ∀ n, m.act .request = .done n () →
            n.kernel.scheduler.switches = m.kernel.scheduler.switches + 1) := by
  refine ⟨?_, fun p target deadline hp hasked hahead => ⟨fun hpos => ?_, fun hzero => ?_⟩⟩
  · obtain ⟨told, htold, haccount⟩ := accounts_run hr hm hid
    exact ⟨told, htold, haccount.sent, haccount.wakeups, haccount.sleeps,
      naps_of_undisturbed hr hm hid htold⟩
  · rw [deed_enterSleep hp hasked hahead, Kernel.rest, (currentProcess?_eq_some hp).2]
    simp only [Process.sleepOutcome_eq_alreadyWoken_iff.2 hpos]
    exact ⟨trivial, act_spare hm hp hasked hahead hpos⟩
  · rw [deed_enterSleep hp hasked hahead, Kernel.rest, (currentProcess?_eq_some hp).2]
    simp only [Process.sleepOutcome_eq_willSleep_iff.2 hzero]
    exact ⟨trivial, fun n => act_sleep hp hasked hahead hzero⟩

/-- The first process resumes itself once and asks to sleep twice; the second one resumes it. -/
def naps : List Action :=
  calls 0 .resume 0 ++ calls 0 .enterSleep 0 ++ calls 0 .enterSleep 0 ++ calls 1 .resume 0

theorem wakeups_conserved_naps : ∃ m run told,
    trial (.boot trialEntry :: calls 0 .spawn 0x2000) = .done m () ∧ Run m run ∧ Stays 1 run ∧
    (m.final run).journal = told ++ m.journal ∧ (m.deeds run).count (.wake 1) = 2 ∧
    (m.deeds run).count (.spare 1) = 1 ∧ (m.deeds run).count (.sleep 1) = 1 ∧
    heard 1 told = 0 ∧ wakes 1 told = 2 ∧ roused 1 told = 1 := by
  obtain ⟨m, hm, hcheck⟩ := Outcome.exists_of_endsIn
    (trial (.boot trialEntry :: calls 0 .spawn 0x2000))
    (fun m => (m.trace naps).all (fun s => (s.2.kernel.processes.get? 1).isSome) &&
      (m.deeds (m.trace naps)).count (.wake 1) == 2 &&
      (m.deeds (m.trace naps)).count (.spare 1) == 1 &&
      (m.deeds (m.trace naps)).count (.sleep 1) == 1 &&
      heard 1 (m.final (m.trace naps)).journal == 0 &&
      pendingWakeups (m.kernel.processes.get? 1) == 0 &&
      pendingWakeups ((m.final (m.trace naps)).kernel.processes.get? 1) == 0)
    (by decide +kernel)
  simp only [Bool.and_eq_true, List.all_eq_true, beq_iff_eq] at hcheck
  obtain ⟨⟨⟨⟨⟨⟨hstays, hwake⟩, hspare⟩, hsleep⟩, hheard⟩, hbefore⟩, hafter⟩ := hcheck
  have hid : Stays 1 (m.trace naps) := fun s hs => Option.isSome_iff_exists.1 (hstays s hs)
  have hrun := m.run_trace naps
  obtain ⟨⟨told, htold, hsent, hwakeups, _⟩, _⟩ := wakeups_conserved (.trial hm) hrun hid
  have hunheard : heard 1 told = 0 := by
    have hle : heard 1 told ≤ heard 1 (m.final (m.trace naps)).journal := by
      rw [htold]
      exact (List.sublist_append_left told m.journal).countP_le
    omega
  exact ⟨m, _, told, hm, hrun, hid, htold, hwake, hspare, hsleep, hunheard, by omega, by omega⟩

end Machine
end Nucleus
