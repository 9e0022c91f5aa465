import Nucleus.Proofs.Provenance

/-!
# Nucleus.Proofs.Deadlines

Sleeps that end by themselves. Deadlines are looked at in three places: when a process asks to
sleep, at a tick of the timer, and in a scheduling decision, after everything that arrives while the
kernel idles. That is often enough: as long as no tick goes past the kernel, who sleeps between two
actions sleeps until a deadline that still lies ahead.

* `Traffic.Timed`: who sleeps has a timer, and nobody else has.
* `Traffic.Punctual.move`: nobody is left behind by a move, but by a tick that nobody sees.
* `Traffic.Move.roused`: what can end a sleep with a deadline.
* `act_elapsed`: a request to sleep until a deadline that has been reached.
-/

namespace Nucleus

namespace Process

/-- The process has a timer exactly if it sleeps. -/
def Timed (p : Process) : Prop :=
  p.state = .sleeping ↔ p.sleepTimer.isSome = true

variable {p q : Process}

theorem Newborn.timed (h : p.Newborn) : p.Timed := by
  simp [Timed, h.state, h.sleepTimer]

theorem Untold.timed (h : p.Untold q) (hp : p.Timed) : q.Timed := by
  unfold Timed
  rw [h.sleeping_iff, h.sleepTimer]
  exact hp

theorem Timed.wake (h : p.Timed) : p.wake.Timed := by
  by_cases hs : p.state = .sleeping
  · simp [Timed, wake_of_sleeping hs]
  · simpa [Timed, wake_of_awake hs] using h

theorem Timed.receive (h : p.Timed) (e : Event) : (p.receive e).Timed := by
  have hqueued : ({ p with events := p.events.push e } : Process).Timed := h
  exact hqueued.wake

theorem Timed.checkTimer (h : p.Timed) (now : Instant) : (p.checkTimer now).Timed := by
  by_cases hs : p.isOverdue now = true
  · simp [Timed, Process.checkTimer, hs]
  · simpa [Timed, Process.checkTimer, hs] using h

theorem Timed.sleep (h : p.Timed) (timer : SleepTimer) : (p.sleep timer).Timed := by
  cases hs : p.sleepOutcome with
  | alreadyWoken => simpa [Timed, sleep_of_alreadyWoken hs] using h
  | willSleep => simp [Timed, sleep_of_willSleep hs]

theorem timed_sleepUntil (p : Process) (deadline : Instant) : (p.sleepUntil deadline).Timed := by
  simp [Timed, sleepUntil]

end Process

namespace Traffic

variable {s t u : Traffic} {d : Deed} {id : ProcessId} {deadline : Instant}

/-- All processes have a timer exactly while they sleep. -/
def Timed (s : Traffic) : Prop :=
  ∀ id p, s.processes.get? id = some p → p.Timed

theorem Timed.modify (h : s.Timed) {j : ProcessId} {f : Process → Process}
    (hf : ∀ p, (f p).id = p.id) (htimed : ∀ {p : Process}, p.Timed → (f p).Timed) {q : Process}
    (hq : (s.processes.modify j f hf).get? id = some q) : q.Timed := by
  obtain ⟨p, hp, ⟨_, rfl⟩ | ⟨rfl, rfl⟩⟩ := Registry.get?_modify_eq_some hf hq
  · exact h _ _ hp
  · exact htimed (h _ _ hp)

theorem Timed.step (h : s.Timed) (hs : s.Step d t) : t.Timed := by
  intro id q hq
  cases hs with
  | untold hr =>
    obtain ⟨p, hp, hpq⟩ := hr.back hq
    exact hpq.timed (h id p hp)
  | handed => exact h.modify (Process.id_receive _) (fun hp => hp.receive _) hq
  | @expired now =>
    replace hq : (s.processes.wakeExpired now).get? id = some q := hq
    rw [Registry.get?_wakeExpired] at hq
    obtain ⟨p, hp, rfl⟩ := Option.map_eq_some_iff.1 hq
    exact (h id p hp).checkTimer now
  | taken => exact h.modify Process.id_dropEvent (fun hp => hp) hq
  | woken => exact h.modify Process.id_wake Process.Timed.wake hq
  | spared => exact h.modify (Process.id_sleep _) (fun hp => hp.sleep _) hq
  | slept => exact h.modify (Process.id_sleep _) (fun hp => hp.sleep _) hq
  | paused => exact h.modify (Process.id_sleepUntil _) (fun {p} _ => p.timed_sleepUntil _) hq
  | _ => exact h id q hq

theorem Timed.move (h : s.Timed) (hm : s.Move d u) : u.Timed := by
  refine hm.invariant Timed.step (fun {s p entry} h _ hnew => ?_) (fun {s} id status h => ?_)
    (fun {s} _ => ?_) h
  · intro j q hq
    rw [get?_create] at hq
    split at hq
    · cases hq
      exact hnew.timed
    · exact h j q hq
  · intro j q hq
    rw [get?_finish] at hq
    split at hq
    · cases hq
    · exact h j q hq
  · intro j q hq
    cases hq

/-- Who sleeps until a deadline can see a clock. -/
def Clocked (s : Traffic) : Prop :=
  ∀ id p deadline, s.processes.get? id = some p → p.state = .sleeping →
    p.sleepTimer = some (.until deadline) → ∃ now, s.now = some now

theorem Clocked.step (h : s.Clocked) (hs : s.Step d t) : t.Clocked := by
  intro id q deadline hq hsleeps htimer
  have hbefore : ∃ now, s.now = some now := by
    rcases hs.slept_before hq hsleeps with ⟨p, hp, hps, hsame⟩ | ⟨_, hahead⟩
    · exact h id p deadline hp hps (hsame.trans htimer)
    · obtain ⟨now, hnow, _⟩ := hahead deadline htimer
      exact ⟨now, hnow⟩
  rcases hs.now_le with hsame | ⟨_, later, _, hlater, _⟩
  · rw [hsame]
    exact hbefore
  · exact ⟨later, hlater⟩

theorem Clocked.move (h : s.Clocked) (hm : s.Move d u) : u.Clocked := by
  refine hm.invariant Clocked.step (fun {s p entry} h _ hnew => ?_) (fun {s} id status h => ?_)
    (fun {s} _ => ?_) h
  · intro j q deadline hq hsleeps htimer
    rw [get?_create] at hq
    split at hq
    · cases hq
      rw [hnew.state] at hsleeps
      cases hsleeps
    · exact h j q deadline hq hsleeps htimer
  · intro j q deadline hq hsleeps htimer
    rw [get?_finish] at hq
    split at hq
    · cases hq
    · rw [now_finish]
      exact h j q deadline hq hsleeps htimer
  · intro j q deadline hq
    cases hq

/-- No clock comes or goes. -/
theorem Move.now_eq_none_iff (hm : s.Move d u) : u.now = none ↔ s.now = none := by
  refine hm.invariant (P := fun t => t.now = none ↔ s.now = none) ?_ ?_ ?_ ?_ .rfl
  · intro t v _ h hs
    rcases hs.now_le with hsame | ⟨_, _, hnow, hlater, _⟩
    · rw [hsame]
      exact h
    · rw [← h, hnow, hlater]
      simp
  · intro t p entry h _ _
    exact h
  · intro t id status h
    rw [now_finish]
    exact h
  · intro t h
    show (t.unhookAll _).now = none ↔ _
    rw [now_unhookAll]
    exact h

theorem Punctual.create (h : s.Punctual) {p : Process} {entry : VirtAddr} (hnew : p.Newborn) :
    (s.create p entry).Punctual := by
  intro j q now deadline hq hsleeps
  rw [get?_create] at hq
  split at hq
  · cases hq
    rw [hnew.state] at hsleeps
    cases hsleeps
  · exact h j q now deadline hq hsleeps

theorem Punctual.finish (h : s.Punctual) (id : ProcessId) (status : Word) :
    (s.finish id status).Punctual := by
  intro j q now deadline hq hsleeps htimer hnow
  rw [get?_finish] at hq
  split at hq
  · cases hq
  · rw [now_finish] at hnow
    exact h j q now deadline hq hsleeps htimer hnow

/-- Nobody is left behind by a move, but by a tick that nobody sees. -/
theorem Punctual.move (h : s.Punctual) (hm : s.Move d u) (hd : d ≠ .tick) : u.Punctual := by
  cases hm with
  | quiet hu => exact h.timely hu
  | ticked => exact absurd rfl hd
  | @asked s t v u d hne ht hv hu =>
    have hnow : v.now = t.now := by
      cases hv <;> first | rfl | exact absurd rfl hne
    exact ((h.timely ht).step hv hnow).timely hu
  | created ht _ hnew hu => exact ((h.timely ht).create hnew).timely hu
  | @ended s t v u p id status ht _ hv _ hu =>
    exact (((h.timely ht).finish id status).timely hv).timely hu
  | released ht hu =>
    refine Punctual.timely (fun id p now deadline hp => ?_) hu
    cases hp

/-! ### What ends a sleep -/

def Sleeps (s : Traffic) (id : ProcessId) (deadline : Instant) : Prop :=
  ∃ p, s.processes.get? id = some p ∧ p.state = .sleeping ∧
    p.sleepTimer = some (.until deadline)

/-- There is a clock, and the deadline has been reached. -/
def Reaches (s : Traffic) (deadline : Instant) : Prop :=
  ∃ now, s.now = some now ∧ deadline.reachedBy now = true

theorem Reaches.step (h : s.Reaches deadline) (hs : s.Step d t) : t.Reaches deadline := by
  obtain ⟨now, hnow, hreached⟩ := h
  rcases hs.now_le with hsame | ⟨before, later, hbefore, hlater, hle⟩
  · exact ⟨now, hsame.trans hnow, hreached⟩
  · cases hbefore.symm.trans hnow
    refine ⟨later, hlater, ?_⟩
    simp only [Instant.reachedBy, decide_eq_true_eq] at hreached ⊢
    exact UInt64.le_trans hreached hle

theorem heard_deliver {r : Registry} {p : Process} (hp : r.get? id = some p) (e : Event)
    (j : Journal) : heard id ((r.deliveryNotes id e).reverse ++ j) = heard id j + 1 := by
  unfold Registry.deliveryNotes
  rw [hp]
  cases hroom : p.events.hasRoom <;> simp [heard, Note.handed?, hroom]

theorem Sleeps.modify (h : s.Sleeps id deadline) {j : ProcessId} {f : Process → Process}
    (hf : ∀ p, (f p).id = p.id)
    (hsame : ∀ {p : Process}, s.processes.get? j = some p → p.state = .sleeping →
      (f p).state = .sleeping ∧ (f p).sleepTimer = p.sleepTimer) :
    ∃ q, (s.processes.modify j f hf).get? id = some q ∧ q.state = .sleeping ∧
      q.sleepTimer = some (.until deadline) := by
  obtain ⟨p, hp, hs, htimer⟩ := h
  rw [Registry.get?_modify, hp]
  by_cases hj : id = j
  · subst hj
    obtain ⟨hstate, htimer'⟩ := hsame hp hs
    exact ⟨f p, by simp, hstate, htimer'.trans htimer⟩
  · exact ⟨p, by simp [hj], hs, htimer⟩

/-- A step ends a sleep only if the deadline has been reached, if an event is handed over, or if
somebody resumes the sleeper. -/
theorem Sleeps.step (h : s.Sleeps id deadline) (hs : s.Step d t) :
    t.Sleeps id deadline ∨ t.Reaches deadline ∨ heard id s.journal < heard id t.journal ∨
      d = .wake id := by
  have hsleeper := h
  obtain ⟨p, hp, hsleeps, htimer⟩ := h
  cases hs with
  | untold hr =>
    obtain ⟨q, hq, hpq⟩ := hr.forth hp
    exact .inl ⟨q, hq, hpq.sleeping_iff.2 hsleeps, hpq.sleepTimer.trans htimer⟩
  | @handed owner e rest hfront =>
    by_cases hid : id = owner
    · subst hid
      have hheard := heard_deliver hp e s.journal
      exact .inr (.inr (.inl (by simp only [hheard]; omega)))
    · refine .inl ⟨p, ?_, hsleeps, htimer⟩
      simp only [Registry.get?_deliver, if_neg hid, hp]
  | @expired now hnow =>
    by_cases hreached : deadline.reachedBy now = true
    · exact .inr (.inl ⟨now, hnow, hreached⟩)
    · refine .inl ⟨p, ?_, hsleeps, htimer⟩
      simp [Registry.get?_wakeExpired, hp, Process.checkTimer, Process.isOverdue, htimer, hreached]
  | taken => exact .inl (hsleeper.modify Process.id_dropEvent fun _ hs => ⟨hs, rfl⟩)
  | @woken j q hq =>
    by_cases hid : id = j
    · exact .inr (.inr (.inr (by rw [hid])))
    · refine .inl ⟨p, ?_, hsleeps, htimer⟩
      show (s.processes.modify j Process.wake).get? id = some p
      rw [Registry.get?_modify, if_neg hid, hp]
  | @spared j q timer hq hout =>
    refine .inl (hsleeper.modify (Process.id_sleep timer) fun {o} ho hs => ?_)
    cases hq.symm.trans ho
    rw [Process.sleep_of_alreadyWoken hout]
    exact ⟨hs, rfl⟩
  | @slept j q timer hq hawake =>
    refine .inl (hsleeper.modify (Process.id_sleep timer) fun {o} ho hs => ?_)
    cases hq.symm.trans ho
    exact absurd hs hawake
  | @paused j q later hq hawake =>
    refine .inl (hsleeper.modify (Process.id_sleepUntil later) fun {o} ho hs => ?_)
    cases hq.symm.trans ho
    exact absurd hs hawake
  | _ => exact .inl ⟨p, hp, hsleeps, htimer⟩

/-- A sleep goes on, or there has been a reason to end it since. -/
structure Rests (s : Traffic) (id : ProcessId) (deadline : Instant) (t : Traffic) : Prop where
  told : s.journal <:+ t.journal
  rests : t.Sleeps id deadline ∨ t.Reaches deadline ∨ heard id s.journal < heard id t.journal

theorem Rests.step (h : s.Rests id deadline t) (hs : t.Step d u) (hd : d ≠ .wake id) :
    s.Rests id deadline u := by
  refine ⟨h.told.trans hs.told, ?_⟩
  have hbefore : heard id s.journal ≤ heard id t.journal := heard_le h.told
  have hafter : heard id t.journal ≤ heard id u.journal := heard_le hs.told
  rcases h.rests with hsleeps | hreaches | hheard
  · rcases hsleeps.step hs with hsleeps | hreaches | hheard | hwoken
    · exact .inl hsleeps
    · exact .inr (.inl hreaches)
    · exact .inr (.inr (by omega))
    · exact absurd hwoken hd
  · exact .inr (.inl (hreaches.step hs))
  · exact .inr (.inr (by omega))

theorem Rests.timely (h : s.Rests id deadline t) (hu : t.Timely u) : s.Rests id deadline u :=
  hu.calm.invariant (fun h hs => h.step hs (by rintro ⟨⟩)) h

/-- So it is where the process and the clock are left alone. -/
theorem Rests.beside (h : s.Rests id deadline t) (htold : t.journal <:+ u.journal)
    (hnow : u.now = t.now) (hget : u.processes.get? id = t.processes.get? id) :
    s.Rests id deadline u := by
  refine ⟨h.told.trans htold, ?_⟩
  unfold Sleeps Reaches
  rw [hnow, hget]
  refine h.rests.imp_right (.imp_right fun hheard => ?_)
  have hle : heard id t.journal ≤ heard id u.journal := heard_le htold
  omega

theorem Sleeps.move (h : s.Sleeps id deadline) (hm : s.Move d u) (hid : u.Has id)
    (hd : d ≠ .wake id) : s.Rests id deadline u := by
  have hs : s.Rests id deadline s := ⟨List.suffix_refl _, .inl h⟩
  cases hm with
  | quiet hu => exact hs.timely hu
  | ticked hu => exact Calm.invariant (fun h hs => h.step hs (by rintro ⟨⟩)) hs hu
  | asked _ ht hv hu => exact ((hs.timely ht).step hv hd).timely hu
  | @created s t u p entry ht hfree _ hu =>
    have hne : p.id ≠ id := by
      rintro rfl
      obtain ⟨o, ho, _⟩ := h
      obtain ⟨o', ho'⟩ := (calm_has ht.calm).2 ⟨o, ho⟩
      rw [hfree] at ho'
      cases ho'
    have hcreated : s.Rests id deadline (t.create p entry) := by
      refine (hs.timely ht).beside (List.suffix_cons _ _) rfl ?_
      rw [get?_create, if_neg hne]
    exact hcreated.timely hu
  | @ended s t v u p j status ht _ hv _ hu =>
    have hne : id ≠ j := by
      rintro rfl
      exact not_has_ended (hv.trans hu).calm hid
    have hended : s.Rests id deadline (t.finish j status) := by
      refine (hs.timely ht).beside (told_finish t j status) (now_finish t j status) ?_
      rw [get?_finish, if_neg hne]
    exact (hended.timely hv).timely hu
  | released _ hu => exact absurd hid (not_has_released hu.calm)

/-- What can end a sleep with a deadline. -/
theorem Move.roused (hm : s.Move d u) (h : s.Sleeps id deadline) {q : Process}
    (hq : u.processes.get? id = some q) (hawake : q.state ≠ .sleeping) :
    u.Reaches deadline ∨ heard id s.journal < heard id u.journal ∨ d = .wake id := by
  by_cases hd : d = .wake id
  · exact .inr (.inr hd)
  · rcases (h.move hm ⟨q, hq⟩ hd).rests with ⟨p, hp, hsleeps, _⟩ | hreaches | hheard
    · rw [hq] at hp
      cases hp
      exact absurd hsleeps hawake
    · exact .inl hreaches
    · exact .inr (.inl hheard)

end Traffic

namespace Machine

variable {m n : Machine} {id : ProcessId}

theorem timed_of_reachable (hm : Reachable m) : m.traffic.Timed := by
  refine traffic_invariant (fun now capacity id p hp => ?_) Traffic.Timed.move hm
  cases hp

theorem clocked_of_reachable (hm : Reachable m) : m.traffic.Clocked := by
  refine traffic_invariant (fun now capacity id p deadline hp => ?_) Traffic.Clocked.move hm
  cases hp

/-- The clock goes on only where the kernel sees it, so nobody sleeps on. -/
theorem punctual_acts {as : List Action} (htick : .arrival .tick ∉ as) (hm : Reachable m)
    (hp : m.traffic.Punctual) (h : m.acts as = .done n ()) : n.traffic.Punctual := by
  refine Reachable.kept (P := fun m => m.traffic.Punctual) ?_ hm hp h
  intro m n a ha hm hp h
  refine hp.move (moved_act (bound_of_reachable hm) h).traffic fun hd => htick ?_
  rw [← deed_eq_tick hd]
  exact ha

theorem now?_acts {as : List Action} (hm : Reachable m) (hn : m.kernel.now? = none)
    (h : m.acts as = .done n ()) : n.kernel.now? = none := by
  refine Reachable.kept (P := fun m => m.kernel.now? = none) ?_ hm hn h
  intro m n a _ hm hn h
  exact (moved_act (bound_of_reachable hm) h).traffic.now_eq_none_iff.2 hn

/-- A request to sleep until a deadline that has been reached is answered at once. -/
theorem act_elapsed (hm : Reachable m) {target : ProcessId} {op : Operation}
    {deadline now : Instant} (hop : op = .waitTimer deadline ∨ op = .enterSleep (some deadline))
    (hasked : m.asked m.frame.request = some (target, op)) (hnow : m.kernel.now? = some now)
    (hreached : deadline.reachedBy now = true) :
    ∃ note, m.act .request = .done { m.note note with frame := m.frame.withResult 0 } () := by
  obtain ⟨p, _, hp, _⟩ := asked_eq_some hasked
  have hl := locks_of_reachable hm
  obtain ⟨note, hact⟩ := act_answered hl hp hasked
  refine ⟨note, hact (v := m.note note) hl (currentProcess?_eq_some hp).1 fun locks => ?_⟩
  have hnow' : (({ m with locks } : Machine).note note).kernel.now? = some now := hnow
  rcases hop with rfl | rfl
  · simp only [perform, waitTimer, hnow', if_pos hreached]
    rfl
  · simp only [perform, enterSleep, hnow', if_pos hreached]
    rfl

/-- In every run from a kernel that was just built, between any two actions: a process sleeps
exactly if it has a timer. Who has a deadline for a timer sleeps, and the deadline lies ahead,
unless ticks have gone past the kernel. Who slept until a deadline and does not any more was not
woken but by the deadline, which has been reached, by a request to resume it or by an event. A
request to sleep until a deadline that has been reached returns zero and changes nothing else; and
where there is no clock nobody has a deadline. -/
theorem deadlines {config : Config} {pool : FramePool} {timed : Bool} {kernel : Kernel}
    {as : List Action} (hk : Kernel.build config pool timed = .ok kernel)
    (h : (start kernel).acts as = .done m ()) :
    (∀ id p, m.kernel.processes.get? id = some p →
      (p.state = .sleeping ↔ p.sleepTimer.isSome = true)) ∧
    (.arrival .tick ∉ as → ∀ id p deadline, m.kernel.processes.get? id = some p →
      p.sleepTimer = some (.until deadline) →
        p.state = .sleeping ∧ ∃ now, m.kernel.now? = some now ∧ now.ticks < deadline.ticks) ∧
    (∀ a n id p q deadline, m.act a = .done n () → m.kernel.processes.get? id = some p →
      p.state = .sleeping → p.sleepTimer = some (.until deadline) →
      n.kernel.processes.get? id = some q → q.state ≠ .sleeping →
        (∃ now, n.kernel.now? = some now ∧ deadline.ticks ≤ now.ticks) ∨
        heard id m.journal < heard id n.journal ∨
        a = .request ∧ m.asked m.frame.request = some (id, .resume)) ∧
    (∀ target op deadline now, (op = .waitTimer deadline ∨ op = .enterSleep (some deadline)) →
      m.asked m.frame.request = some (target, op) →
      m.kernel.now? = some now → deadline.ticks ≤ now.ticks →
        ∃ note, m.act .request = .done { m.note note with frame := m.frame.withResult 0 } ()) ∧
    (timed = false → m.kernel.now? = none ∧ ∀ id p deadline,
      m.kernel.processes.get? id = some p → p.sleepTimer ≠ some (.until deadline)) := by
  have hstart : Reachable (start kernel) := .start hk
  have hm := hstart.acts h
  have htimed := timed_of_reachable hm
  have hclocked := clocked_of_reachable hm
  -- A process with a deadline sleeps, and then there is a clock.
  have hsleeps : ∀ {id p deadline}, m.kernel.processes.get? id = some p →
      p.sleepTimer = some (.until deadline) → p.state = .sleeping := by
    intro id p deadline hp htimer
    exact (htimed id p hp).2 (by rw [htimer]; rfl)
  refine ⟨htimed, fun htick id p deadline hp htimer => ?_, ?_, ?_, fun hnone => ?_⟩
  · have hstate := hsleeps hp htimer
    obtain ⟨now, hnow⟩ := hclocked id p deadline hp hstate htimer
    have hfresh : (start kernel).traffic.Punctual := by
      intro id p now deadline hp
      cases ((Kernel.fresh_of_build hk).get? id).symm.trans hp
    have hahead := punctual_acts htick hstart hfresh h id p now deadline hp hstate htimer hnow
    refine ⟨hstate, now, hnow, ?_⟩
    simp only [Instant.reachedBy, decide_eq_false_iff_not, UInt64.not_le] at hahead
    exact hahead
  · intro a n id p q deadline ha hp hstate htimer hq hawake
    have hmoved := (moved_act (bound_of_reachable hm) ha).traffic
    rcases hmoved.roused ⟨p, hp, hstate, htimer⟩ hq hawake with ⟨now, hnow, hreached⟩ | hheard | hd
    · exact .inl ⟨now, hnow, of_decide_eq_true hreached⟩
    · exact .inr (.inl hheard)
    · exact .inr (.inr (deed_eq_wake hd))
  · intro target op deadline now hop hasked hnow hreached
    exact act_elapsed hm hop hasked hnow (decide_eq_true hreached)
  · have hstopped : (start kernel).kernel.now? = none := Kernel.now?_of_build hk hnone
    have hnow := now?_acts hstart hstopped h
    refine ⟨hnow, fun id p deadline hp htimer => ?_⟩
    obtain ⟨now, hnow'⟩ := hclocked id p deadline hp (hsleeps hp htimer) htimer
    cases hnow.symm.trans hnow'

/-- The first process waits for the second tick, and there has been one. -/
def napping : List Action :=
  .boot trialEntry :: calls 0 .spawn 0x2000 ++
    [.compute (asking 0 .waitTimer 0x1000) (UserMemory.zeroed.poke 0x1000 2) [], .request, .timer]

theorem deadlines_nap : ∃ kernel m n p q now,
    Kernel.build .standard trialFrames true = .ok kernel ∧
    (start kernel).acts napping = .done m () ∧ .arrival .tick ∉ napping ∧
    m.kernel.processes.get? 1 = some p ∧ p.sleepTimer = some (.until ⟨2, 0⟩) ∧
    p.state = .sleeping ∧ m.kernel.now? = some now ∧ now.ticks < 2 ∧
    m.act .timer = .done n () ∧ n.kernel.processes.get? 1 = some q ∧ q.state ≠ .sleeping ∧
    ∃ later, n.kernel.now? = some later ∧ 2 ≤ later.ticks := by
  obtain ⟨m, hm, hcheck⟩ := Outcome.exists_of_endsIn (trial napping)
    (fun m => heard 1 m.journal == 0 &&
      (m.kernel.processes.get? 1).any (fun p => p.sleepTimer == some (.until ⟨2, 0⟩)) &&
      (m.act .timer).endsIn fun n => heard 1 n.journal == 0 &&
        (n.kernel.processes.get? 1).any fun q => q.state != .sleeping)
    (by decide +kernel)
  simp only [Bool.and_eq_true, Option.any_eq_true, beq_iff_eq] at hcheck
  obtain ⟨⟨hunheard, p, hp, htimer⟩, hends⟩ := hcheck
  obtain ⟨n, hn, hcheck'⟩ := Outcome.exists_of_endsIn _ _ hends
  simp only [Bool.and_eq_true, Option.any_eq_true, beq_iff_eq, bne_iff_ne] at hcheck'
  obtain ⟨hunheard', q, hq, hawake⟩ := hcheck'
  obtain ⟨kernel, hk, hacts⟩ := exists_of_trial hm
  have htick : .arrival .tick ∉ napping := by decide
  obtain ⟨_, hahead, hended, _⟩ := deadlines hk hacts
  obtain ⟨hs, now, hnow, hlt⟩ := hahead htick 1 p _ hp htimer
  refine ⟨kernel, m, n, p, q, now, hk, hacts, htick, hp, htimer, hs, hnow, hlt, hn, hq, hawake, ?_⟩
  rcases hended .timer n 1 p q _ hn hp hs htimer hq hawake with hreached | hheard | ⟨hreq, _⟩
  · exact hreached
  · omega
  · cases hreq

end Machine
end Nucleus
