import Nucleus.Proofs.Batches
import Nucleus.Proofs.Bypass
import Nucleus.Proofs.Wakeups

/-!
# Nucleus.Proofs.Slices

How far the way of an interrupt reaches. The timer takes the CPU from a process at the end of its
time slice and at no other tick: the slice begins anew with every selection, whatever brings it
about, and each tick of the timer since then has used up one of its ticks. Otherwise the process
with the CPU goes on as if nothing had been, and the others only learn of events and of the end of
their sleep.

* `Process.Signalled`, `Machine.Resumes`: what a process, and what a machine keeps meanwhile.
* `resumes_settle`: deliveries and elapsed deadlines come to no more.
* `chooses_or_continues`, `remaining_of_run`: what is left of the time slice, after an action and
  after a run.
* `preempted_at_expiry`: what the two kinds of interrupts do.
-/

namespace Nucleus

/-! ### Signals -/

namespace Process

/-- What events and a look at the clock do to a process: its queue and its pending wakeups grow, and
a sleep may end, with the timer that was set for it. -/
structure Signalled (p q : Process) : Prop where
  rest : q = { p with
    events := q.events, wakeups := q.wakeups, state := q.state, sleepTimer := q.sleepTimer }
  events : p.events.items <+: q.events.items
  capacity : q.events.capacity = p.events.capacity
  wakeups : p.wakeups ≤ q.wakeups
  sleep : q.state = p.state ∧ q.sleepTimer = p.sleepTimer ∨
    p.state = .sleeping ∧ q.state = .ready ∧ q.sleepTimer = none

namespace Signalled

variable {p q u : Process}

theorem refl (p : Process) : p.Signalled p :=
  ⟨rfl, List.prefix_refl _, rfl, Nat.le_refl _, .inl ⟨rfl, rfl⟩⟩

theorem trans (h : p.Signalled q) (h' : q.Signalled u) : p.Signalled u := by
  refine ⟨?_, h.events.trans h'.events, h'.capacity.trans h.capacity,
    Nat.le_trans h.wakeups h'.wakeups, ?_⟩
  · rw [h'.rest, h.rest]
  · obtain ⟨hs, ht⟩ | ⟨hs, hready, ht⟩ := h.sleep
    · rw [← hs, ← ht]
      exact h'.sleep
    · -- A sleep that has ended does not end again.
      obtain ⟨hs', ht'⟩ | ⟨hs', _⟩ := h'.sleep
      · exact .inr ⟨hs, hs'.trans hready, ht'.trans ht⟩
      · rw [hready] at hs'
        cases hs'

end Signalled

theorem signalled_wake (p : Process) : p.Signalled p.wake := by
  by_cases hs : p.state = .sleeping
  · rw [wake_of_sleeping hs]
    exact ⟨rfl, List.prefix_refl _, rfl, Nat.le_refl _, .inr ⟨hs, rfl, rfl⟩⟩
  · rw [wake_of_awake hs]
    exact ⟨rfl, List.prefix_refl _, rfl, Nat.le_succ _, .inl ⟨rfl, rfl⟩⟩

theorem signalled_receive (e : Event) (p : Process) : p.Signalled (p.receive e) := by
  have hpush : p.Signalled { p with events := p.events.push e } := by
    refine ⟨rfl, ?_, p.events.capacity_push e, Nat.le_refl _, .inl ⟨rfl, rfl⟩⟩
    show p.events.items <+: (p.events.push e).items
    rw [BoundedQueue.items_push]
    split
    · exact List.prefix_append _ _
    · exact List.prefix_refl _
  exact hpush.trans (signalled_wake _)

theorem signalled_checkTimer (now : Instant) (p : Process) : p.Signalled (p.checkTimer now) := by
  unfold checkTimer
  split
  · rename_i h
    exact ⟨rfl, List.prefix_refl _, rfl, Nat.le_refl _,
      .inr ⟨state_of_isOverdue h, rfl, rfl⟩⟩
  · exact .refl p

end Process

namespace Registry

variable {r s t : Registry} {stirred stirred' : Process → Prop}

/-- Under each identifier the same process, signalled at most, and only if it is one of those that
are stirred. -/
def Signals (stirred : Process → Prop) : Registry → Registry → Prop :=
  Rel fun p q => p.Signalled q ∧ (q = p ∨ stirred p)

theorem Signals.refl (stirred : Process → Prop) (r : Registry) : Signals stirred r r :=
  Rel.refl (fun p => ⟨.refl p, .inl rfl⟩) r

theorem Signals.trans (h : Signals stirred r s) (h' : Signals stirred' s t) :
    Signals (fun p => stirred p ∨ stirred' p) r t := by
  refine h.comp h' fun {p q u} hpq hqu => ⟨hpq.1.trans hqu.1, ?_⟩
  obtain rfl | hp := hpq.2
  · exact hqu.2.imp_right .inr
  · exact .inr (.inl hp)

theorem Signals.imp (h : Signals stirred r s) (himp : ∀ p, stirred p → stirred' p) :
    Signals stirred' r s :=
  Rel.imp h fun hpq => ⟨hpq.1, hpq.2.imp_right (himp _)⟩

/-- Events change the processes that they are for. -/
theorem signals_deliverAll (items : List (ProcessId × Event)) :
    ∀ r : Registry, Signals (fun p => ∃ e, (p.id, e) ∈ items) r (r.deliverAll items) := by
  induction items with
  | nil => exact .refl _
  | cons item rest ih =>
    intro r
    have hfirst : Signals (fun p => p.id = item.1) r (r.deliver item.1 item.2) :=
      rel_modify (fun p => ⟨.refl p, .inl rfl⟩) _ fun p hp =>
        ⟨p.signalled_receive item.2, .inr (id_of_get? hp)⟩
    refine (hfirst.trans (ih _)).imp fun p hp => ?_
    obtain hid | ⟨e, he⟩ := hp
    · exact ⟨item.2, by rw [hid]; exact List.mem_cons_self⟩
    · exact ⟨e, List.mem_cons_of_mem _ he⟩

/-- A look at the clock changes the processes whose deadline is over. -/
theorem signals_wakeExpired (r : Registry) (now : Instant) :
    Signals (fun p => p.isOverdue now = true) r (r.wakeExpired now) := by
  refine rel_map fun p => ⟨p.signalled_checkTimer now, ?_⟩
  by_cases h : p.isOverdue now = true
  · exact .inr h
  · exact .inl (if_neg h)

end Registry

namespace Machine

variable {m n w : Machine} {a : Action} {run : List (Action × Machine)}

/-- The process with the CPU goes on with the registers it had. The scheduler has chosen nobody, and
the processes that are stirred are signalled. -/
structure Resumes (m n : Machine) (stirred : Process → Prop) : Prop where
  frame : n.frame = m.frame
  current : n.kernel.current = m.kernel.current
  scheduler : n.kernel.scheduler =
    { m.kernel.scheduler with remaining := n.kernel.scheduler.remaining }
  processes : Registry.Signals stirred m.kernel.processes n.kernel.processes

theorem resumes_deliverEvents (m : Machine) :
    m.Resumes m.deliverEvents fun p => ∃ e, (p.id, e) ∈ m.kernel.devices.inbox.pending :=
  ⟨rfl, rfl, rfl, Registry.signals_deliverAll _ _⟩

theorem signals_wakeExpired (m : Machine) :
    Registry.Signals (fun p => ∃ now, m.kernel.now? = some now ∧ p.isOverdue now = true)
      m.kernel.processes m.wakeExpired.kernel.processes := by
  show Registry.Signals _ _ m.kernel.wakeExpired.processes
  unfold Kernel.wakeExpired
  split
  · exact .refl _ _
  · rename_i now hnow
    exact (Registry.signals_wakeExpired _ now).imp fun p hp => ⟨now, hnow, hp⟩

/-- Only processes with an event in the inbox or with a deadline that is over are changed. -/
theorem resumes_settle (m : Machine) :
    m.Resumes m.settle fun p => m.Stirs m.kernel.devices.inbox.pending p.id p := by
  have hq := m.quiet_settle
  refine ⟨hq.frame, hq.current, ?_, ?_⟩
  · rw [scheduler_settle]
  · exact (Registry.signals_deliverAll _ _).trans (signals_wakeExpired m.deliverEvents)

/-! ### What is left of the time slice -/

theorem ticks_cons_timer (n : Machine) (rest : List (Action × Machine)) :
    ticks ((.timer, n) :: rest) = ticks rest + 1 :=
  List.countP_cons_of_pos rfl

/-- Nobody is selected, and while a process has the CPU its time slice goes on: a tick of the timer
has used up a tick of it. -/
structure Continues (m : Machine) (a : Action) (n : Machine) : Prop where
  config : n.kernel.config = m.kernel.config
  switches : n.kernel.scheduler.switches = m.kernel.scheduler.switches
  current : n.kernel.current ≠ none → m.kernel.current ≠ none
  remaining : n.kernel.current ≠ none → ∀ rest,
    n.kernel.scheduler.remaining.toNat + ticks ((a, n) :: rest) =
      m.kernel.scheduler.remaining.toNat + ticks rest

theorem Holds.continues (h : m.Holds n)
    (hc : n.kernel.current ≠ none → m.kernel.current ≠ none ∧ a ≠ .timer) : m.Continues a n := by
  refine ⟨h.config, h.switches, fun hn => (hc hn).1, fun hn rest => ?_⟩
  rw [h.remaining, ticks_cons_of_ne (hc hn).2]

/-- The time slice begins anew, or it goes on. -/
theorem chooses_or_continues (hm : m.kernel.Bound) (hs : m.kernel.Sized) (h : m.Acted a n) :
    (∃ c, m.Chooses n c) ∨ m.Continues a n := by
  cases h with
  | @computed frame memory idle =>
    have hstill : m.Still (m.compute frame memory idle) :=
      (still_quiet (m.quiet_setMemory memory)).trans (still_of_kernel rfl)
    exact .inr (hstill.holds.continues fun hc => ⟨hc, by rintro ⟨⟩⟩)
  | quietly _ htimer hq =>
    refine .inr ((still_quiet hq).holds.continues fun hc => ?_)
    rw [hq.current] at hc
    exact ⟨hc, fun ha => hc (htimer ha)⟩
  | booted hk hw hv hn => exact .inl ⟨_, chooses_booted hk hw hv hn⟩
  | requested hp _ hv hn =>
    refine (turned_requested hm hv hn).imp_right fun hheld => hheld.continues fun _ => ?_
    rw [(currentProcess?_eq_some hp).1]
    exact ⟨by rintro ⟨⟩, by rintro ⟨⟩⟩
  | @ticked w n hw hc hpreempt hn =>
    obtain ⟨hless, _⟩ := remaining_of_tick ((still_quiet hw).holds.sized hs) hpreempt
    refine .inr ⟨hn.config.trans hw.config, hn.switches.trans hw.switches, fun _ => ?_,
      fun _ rest => ?_⟩
    · rw [← hw.current]
      exact hc
    · have hafter : n.kernel.scheduler.remaining = w.kernel.scheduler.tick.remaining :=
        hn.remaining
      rw [ticks_cons_timer, hafter, ← hw.remaining]
      omega
  | preempted hw _ _ hv hn => exact .inl ⟨_, chooses_preempted hw hv hn⟩
  | shutDown hw hn =>
    have hnone : n.kernel.current = none := hn.current
    exact .inr ⟨hn.config.trans hw.config, hn.switches.trans hw.switches,
      fun hc => absurd hnone hc, fun hc => absurd hnone hc⟩

/-- The part of a run behind the last selection; the whole run, if nobody is selected in it. -/
def sinceSelection (m : Machine) : List (Action × Machine) → List (Action × Machine)
  | [] => []
  | (a, n) :: rest =>
    if selections m ((a, n) :: rest) = [] then (a, n) :: rest else n.sinceSelection rest

theorem sinceSelection_of_nil (h : selections m run = []) : m.sinceSelection run = run := by
  cases run with
  | nil => rfl
  | cons s rest => exact if_pos h

theorem sinceSelection_cons {rest : List (Action × Machine)}
    (h : selections m ((a, n) :: rest) ≠ []) :
    m.sinceSelection ((a, n) :: rest) = n.sinceSelection rest :=
  if_neg h

/-- The time slice of the process that has the CPU when a run is over. It has lost one tick for each
one of the timer since the last selection; without any, it is what it was before the run. -/
theorem remaining_of_run (h : Run m run) (hm : Reachable m)
    (hc : (m.final run).kernel.current ≠ none) :
    (selections m run = [] ∧ m.kernel.current ≠ none ∧
      (m.final run).kernel.scheduler.remaining.toNat + ticks run =
        m.kernel.scheduler.remaining.toNat) ∨
    (selections m run ≠ [] ∧
      (m.final run).kernel.scheduler.remaining.toNat + ticks (m.sinceSelection run) =
        m.kernel.config.timeSlice.toNat) := by
  induction h with
  | nil => exact .inl ⟨rfl, hc, rfl⟩
  | @cons m n a rest ha _ ih =>
    have hsized := sized_of_reachable hm
    have hrest := ih (hm.act ha) hc
    obtain ⟨c, hchosen⟩ | hgoes :=
      chooses_or_continues (bound_of_reachable hm) hsized (act_done ha)
    · have hsome : selections m ((a, n) :: rest) ≠ [] := by
        rw [selections_of_chooses hchosen]
        exact List.cons_ne_nil _ _
      refine .inr ⟨hsome, ?_⟩
      rw [sinceSelection_cons hsome]
      obtain ⟨hnil, _, hleft⟩ | ⟨_, hleft⟩ := hrest
      · rw [sinceSelection_of_nil hnil, ← hsized.timeSlice, ← hchosen.remaining]
        exact hleft
      · rw [← hchosen.config]
        exact hleft
    · rw [selections_of_switches hgoes.switches]
      obtain ⟨hnil, hcurrent, hleft⟩ | ⟨hsome, hleft⟩ := hrest
      · refine .inl ⟨hnil, hgoes.current hcurrent, ?_⟩
        have hstep := hgoes.remaining hcurrent rest
        show (n.final rest).kernel.scheduler.remaining.toNat + _ = _
        omega
      · refine .inr ⟨hsome, ?_⟩
        rw [sinceSelection_cons (by rwa [selections_of_switches hgoes.switches]),
          ← hgoes.config]
        exact hleft

theorem reachable_final (h : Run m run) (hm : Reachable m) : Reachable (m.final run) := by
  induction h with
  | nil => exact hm
  | cons ha _ ih => exact ih (hm.act ha)

/-! ### The two kinds of interrupts -/

/-- A tick delivers what the inbox holds and ends the sleeps whose deadline it reaches. -/
theorem resumes_tick {u : Unit} (h : m.tick = .done w u) :
    m.Resumes w.settle fun p => w.settle.Stirs m.kernel.devices.inbox.pending p.id p := by
  have hheard := heard_tick h
  have hq := (quiet_tick h).trans w.quiet_settle
  have hinbox : w.kernel.devices.inbox = m.kernel.devices.inbox := hheard.inbox
  have hsettled := w.resumes_settle.processes
  rw [hheard.processes, hinbox] at hsettled
  refine ⟨hq.frame, hq.current, ?_, ?_⟩
  · rw [scheduler_settle, hheard.scheduler]
  · unfold Stirs
    rw [now?_settle]
    exact hsettled

theorem resumes_timerInterrupt {b : Bool} (hm : m.kernel.Sized)
    (h : m.timerInterrupt = .done n b) :
    (b = true ↔ m.kernel.current ≠ none ∧ m.kernel.scheduler.remaining.toNat = 1) ∧
    (b = false → m.Resumes n fun p => n.Stirs m.kernel.devices.inbox.pending p.id p) := by
  rw [timerInterrupt_eq] at h
  obtain ⟨w, u, hw, h⟩ := Outcome.andThen_eq_done_iff.1 h
  have hresumes := resumes_tick hw
  have hq := (quiet_tick hw).trans w.quiet_settle
  have hexpires := shouldPreempt_tick_iff ((still_quiet hq).holds.sized hm)
  rw [hq.remaining] at hexpires
  rw [← hexpires, ← hq.current]
  unfold afterTick at h
  split at h
  · rename_i hc
    cases h
    exact ⟨iff_of_false Bool.false_ne_true fun h' => h'.1 hc, fun _ => hresumes⟩
  · rename_i id hc
    have hne : w.settle.kernel.current ≠ none := by
      rw [hc]
      rintro ⟨⟩
    unfold accountTick at h
    simp only at h
    split at h
    · rename_i hpreempt
      obtain ⟨v, c, _, hn⟩ := Outcome.andThen_eq_done_iff.1 h
      cases hn
      exact ⟨iff_of_true rfl ⟨hne, hpreempt⟩, by rintro ⟨⟩⟩
    · rename_i hpreempt
      cases h
      refine ⟨iff_of_false Bool.false_ne_true fun h' => hpreempt h'.2, fun _ => ?_⟩
      refine ⟨hresumes.frame, hresumes.current, ?_, hresumes.processes⟩
      show w.settle.kernel.scheduler.tick = _
      rw [hresumes.scheduler]
      rfl

theorem resumes_interrupt (m : Machine) (frame : Registers) :
    (m.announced frame).deliverEvents.kernel.scheduler = m.kernel.scheduler ∧
    m.Resumes (m.announced frame).deliverEvents fun p =>
      ∃ e, (p.id, e) ∈ (m.announced frame).kernel.devices.inbox.pending := by
  have h := (m.announced frame).resumes_deliverEvents
  exact ⟨rfl, h.frame, h.current, h.scheduler, h.processes⟩

/-- The timer returns as long as the clock can count one tick more. -/
theorem timerInterrupt_returns_iff (hm : Reachable m) :
    (∃ n b, m.withKernel timerInterrupt = .done n b) ↔
      Clock.HasRoom 1 m.kernel.devices.clock := by
  obtain ⟨locks, give, hcall⟩ := withKernel_of_free (locks_of_reachable hm) timerInterrupt
  rw [hcall]
  constructor
  · rintro ⟨n, b, h⟩
    obtain ⟨w, b', hw, -⟩ := Outcome.andThen_eq_done_iff.1 h
    rw [timerInterrupt_eq] at hw
    obtain ⟨v, u, hv, -⟩ := Outcome.andThen_eq_done_iff.1 hw
    rcases tick_cases { m with locks } with ⟨hroom, -⟩ | ⟨-, hfault⟩
    · exact hroom
    · rw [hfault] at hv
      cases hv
  · intro hroom
    have hbound := bound_of_reachable hm
    have hbooted : ∀ {id}, m.kernel.current = some id → m.kernel.booted = true :=
      booted_of_reachable hm
    obtain ⟨w, b, hw⟩ := tick_returns (m := { m with locks }) hbound hbooted hroom
    rw [hw]
    exact ⟨_, b, rfl⟩

/-- **Interrupts preempt at the end of a time slice and at no other time.** After any run of a
kernel whose configuration was accepted, the timer returns as long as the clock can count. It says
that it decided anew just when a process has the CPU and with this tick there have been as many as a
time slice has since the last selection, whatever brought that about. Where it does not, and
whenever a line is served, the registers, the process with the CPU and what the scheduler remembers
of its choices stay as they are, and a process is signalled at most, if there was an event for it or
its deadline is over. -/
theorem preempted_at_expiry {config : Config} {pool : FramePool} {timed : Bool} {kernel : Kernel}
    (hk : Kernel.build config pool timed = .ok kernel) (hr : Run (start kernel) run)
    (hm : (start kernel).final run = m) :
    ((∃ n b, m.withKernel timerInterrupt = .done n b) ↔
      Clock.HasRoom 1 m.kernel.devices.clock) ∧
    (∀ n b, m.withKernel timerInterrupt = .done n b →
      (b = true ↔ m.kernel.current ≠ none ∧
        ticks ((start kernel).sinceSelection run) + 1 = config.timeSlice.toNat) ∧
      (b = false → m.Resumes n fun p => n.Stirs m.kernel.devices.inbox.pending p.id p)) ∧
    ∀ frame, ∃ n count, m.withKernel (fun m => m.interrupt frame) = .done n count ∧
      n.kernel.scheduler = m.kernel.scheduler ∧
      m.Resumes n fun p => ∃ e, (p.id, e) ∈ (m.announced frame).kernel.devices.inbox.pending := by
  subst hm
  have hreach := reachable_final hr (.start hk)
  refine ⟨timerInterrupt_returns_iff hreach, fun n b h => ?_, fun frame =>
    ⟨_, _, withKernel_interrupt (locks_of_reachable hreach) frame, resumes_interrupt _ frame⟩⟩
  obtain ⟨locks, give, hcall⟩ := withKernel_of_free (locks_of_reachable hreach) timerInterrupt
  rw [hcall] at h
  obtain ⟨w, b', hw, hn⟩ := Outcome.andThen_eq_done_iff.1 h
  cases hn
  have hsized := sized_of_reachable hreach
  obtain ⟨hexpires, hresumes⟩ :=
    resumes_timerInterrupt (m := { (start kernel).final run with locks }) hsized hw
  refine ⟨hexpires.trans (and_congr_right fun hc => ?_), fun hb => ?_⟩
  · -- Nobody has the CPU of a kernel that was just built, so the slice began in the run.
    obtain ⟨-, hnone, -⟩ | ⟨-, hleft⟩ := remaining_of_run hr (.start hk) hc
    · exact absurd (Kernel.fresh_of_build hk).current hnone
    · rw [show (start kernel).kernel.config = config from Kernel.config_of_build hk] at hleft
      show ((start kernel).final run).kernel.scheduler.remaining.toNat = 1 ↔ _
      omega
  · have h' := hresumes hb
    exact ⟨h'.frame, h'.current, h'.scheduler, h'.processes⟩

/-- The standard sizes with time slices of two ticks. -/
def briefSlices : Config :=
  { Config.standard with timeSlice := 2 }

/-- A process loses a tick of its time slice and yields, and the one selected then loses one. -/
def tickEach : List Action :=
  .boot trialEntry :: calls 0 .spawn 0x2000 ++ .timer :: calls 0 .yieldCpu 0 ++ [.timer]

/-- The next tick is the third one after all, but the second one since the selection, and takes the
CPU from the process. -/
theorem preempted_at_expiry_brief : ∃ kernel run m n,
    Kernel.build briefSlices trialFrames true = .ok kernel ∧ Run (start kernel) run ∧
    (start kernel).final run = m ∧ m.kernel.current = some 2 ∧ ticks run = 2 ∧
    m.withKernel timerInterrupt = .done n true := by
  obtain ⟨kernel, hk⟩ : ∃ kernel, Kernel.build briefSlices trialFrames true = .ok kernel :=
    ⟨_, rfl⟩
  have hr := run_trace tickEach (start kernel)
  have hcheck : ((start kernel).final ((start kernel).trace tickEach)).kernel.current = some 2 ∧
      ticks ((start kernel).trace tickEach) = 2 ∧
      ticks ((start kernel).sinceSelection ((start kernel).trace tickEach)) + 1 =
        briefSlices.timeSlice.toNat := by
    cases hk
    decide +kernel
  obtain ⟨hcurrent, hticks, hslice⟩ := hcheck
  obtain ⟨n, hn, -⟩ := Outcome.exists_of_endsIn
    (forget (((start kernel).final ((start kernel).trace tickEach)).withKernel timerInterrupt))
    (fun _ => true) (by cases hk; decide +kernel)
  obtain ⟨b, hb⟩ := forget_done hn
  obtain ⟨-, htick, -⟩ := preempted_at_expiry hk hr rfl
  have htrue : b = true := (htick n b hb).1.2 ⟨by rw [hcurrent]; rintro ⟨⟩, hslice⟩
  exact ⟨kernel, _, _, n, hk, hr, rfl, hcurrent, hticks, by rw [← htrue]; exact hb⟩

end Machine
end Nucleus
