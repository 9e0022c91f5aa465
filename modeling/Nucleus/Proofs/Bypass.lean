import Nucleus.Proofs.Turns
import Nucleus.Proofs.Validation

/-!
# Nucleus.Proofs.Bypass

No process that is ready is passed over for long. Until it is selected, each selection of another
one brings the cursor nearer to it, so nobody is selected twice meanwhile, and there are fewer
selections than there can be processes. Ticks of the timer alone bring each of them about after a
time slice at most.

* `Kernel.Sized`: identifiers stay within the limit, and the time slice within its length.
* `selections`, `ticks`: what a run has of both.
* `Bypassed`: what holds of a run while a process is passed over in it; `bypassed_of_run` has the
  induction.
* `bypass_bounded`: what follows for the number of selections and ticks.
-/

namespace Nucleus

/-- The processes of which the scheduler selects one after the other in a run. -/
def selections : Machine → List (Action × Machine) → List ProcessId
  | _, [] => []
  | m, (_, n) :: rest =>
    (if n.kernel.scheduler.switches = m.kernel.scheduler.switches then []
      else n.kernel.scheduler.cursor.toList) ++ selections n rest

/-- The ticks of the timer in a run. -/
def ticks (run : List (Action × Machine)) : Nat :=
  run.countP fun s => s.1 == .timer

namespace Kernel

/-- Identifiers are within the limit, and the present time slice is not used up nor too long. -/
structure Sized (k : Kernel) : Prop where
  ids : ∀ {id p}, k.processes.get? id = some p →
    1 ≤ id.toNat ∧ id.toNat ≤ k.config.maxProcesses.toNat
  timeSlice : k.scheduler.timeSlice = k.config.timeSlice
  positive : 0 < k.scheduler.remaining.toNat
  bounded : k.scheduler.remaining.toNat ≤ k.scheduler.timeSlice.toNat

end Kernel

theorem Kernel.Fresh.sized {k : Kernel} (h : k.Fresh) : k.Sized := by
  have hne := (Config.validate_eq_ok_iff.1 h.config).1.timeSlice
  refine ⟨fun {id p} hp => ?_, ?_, ?_, ?_⟩
  · rw [h.get?] at hp
    cases hp
  · rw [h.scheduler]
    rfl
  · rw [h.scheduler]
    exact Nat.pos_of_ne_zero fun e => hne (UInt64.toNat_inj.1 e)
  · rw [h.scheduler]
    exact Nat.le_refl _

namespace Machine

variable {m n : Machine} {id c : ProcessId} {p q : Process} {a : Action}

/-! ### The sizes -/

theorem Chooses.sized (h : m.Chooses n c) (hm : m.kernel.Sized) : n.kernel.Sized := by
  refine ⟨fun hq => ?_, ?_, ?_, ?_⟩
  · rw [h.config]
    rcases h.ids hq with ⟨p, hp⟩ | hbounds
    · exact hm.ids hp
    · exact hbounds
  · rw [h.timeSlice, h.config]
    exact hm.timeSlice
  · rw [h.remaining]
    exact Nat.lt_of_lt_of_le hm.positive hm.bounded
  · exact Nat.le_of_eq (by rw [h.remaining, h.timeSlice])

theorem Holds.sized (h : m.Holds n) (hm : m.kernel.Sized) : n.kernel.Sized := by
  refine ⟨fun hq => ?_, ?_, ?_, ?_⟩
  · rw [h.config]
    rcases h.ids hq with ⟨p, hp⟩ | hbounds
    · exact hm.ids hp
    · exact hbounds
  · rw [h.timeSlice, h.config]
    exact hm.timeSlice
  · rw [h.remaining]
    exact hm.positive
  · rw [h.remaining, h.timeSlice]
    exact hm.bounded

theorem toNat_remaining_tick (s : RoundRobin) : s.tick.remaining.toNat = s.remaining.toNat - 1 :=
  Word.toNat_subFloor _ _

/-- A time slice is over with its last tick. -/
theorem shouldPreempt_tick_iff (hm : m.kernel.Sized) :
    m.kernel.scheduler.tick.shouldPreempt = true ↔ m.kernel.scheduler.remaining.toNat = 1 := by
  have hpos := hm.positive
  unfold RoundRobin.shouldPreempt
  rw [beq_iff_eq, ← UInt64.toNat_inj, toNat_remaining_tick]
  show _ = 0 ↔ _
  omega

/-- One tick less is left of a time slice, but not none. -/
theorem remaining_of_tick (hm : m.kernel.Sized)
    (h : m.kernel.scheduler.tick.shouldPreempt = false) :
    m.kernel.scheduler.tick.remaining.toNat + 1 = m.kernel.scheduler.remaining.toNat ∧
      0 < m.kernel.scheduler.tick.remaining.toNat := by
  have hpos := hm.positive
  have hlast : m.kernel.scheduler.remaining.toNat ≠ 1 := fun e => by
    rw [(shouldPreempt_tick_iff hm).2 e] at h
    cases h
  rw [toNat_remaining_tick]
  omega

theorem sized_tickSlice (hm : m.kernel.Sized)
    (h : m.kernel.scheduler.tick.shouldPreempt = false) : m.tickSlice.kernel.Sized := by
  obtain ⟨hless, hpos⟩ := remaining_of_tick hm h
  refine ⟨hm.ids, hm.timeSlice, hpos, ?_⟩
  have := hm.bounded
  show m.kernel.scheduler.tick.remaining.toNat ≤ m.kernel.scheduler.timeSlice.toNat
  omega

theorem sized_turned (hm : m.kernel.Sized) (h : m.Turned a n) : n.kernel.Sized := by
  cases h with
  | chose hc => exact hc.sized hm
  | held _ hheld => exact hheld.sized hm
  | ticked hw hs hn => exact hn.holds.sized (sized_tickSlice (hw.holds.sized hm) hs)

theorem sized_of_reachable (hm : Reachable m) : m.kernel.Sized :=
  hm.invariant Kernel.Fresh.sized fun hm hs h =>
    sized_turned hs (turned_acted (bound_of_reachable hm) h)

/-! ### Passing over a process -/

/-- A process is ready. -/
def Ready (m : Machine) (id : ProcessId) : Prop :=
  ∃ p, m.kernel.processes.get? id = some p ∧ p.state = .ready

/-- What holds of a run in which a process that is ready is neither selected nor removed. -/
structure Bypassed (id : ProcessId) (m : Machine) (run : List (Action × Machine)) : Prop where
  ready : ∀ s ∈ run, s.2.Ready id
  near : ∀ c ∈ selections m run, RoundRobin.distance (some c) id <
    RoundRobin.distance m.kernel.scheduler.cursor id
  nearer : (selections m run).Pairwise fun c d =>
    RoundRobin.distance (some d) id < RoundRobin.distance (some c) id
  bounds : ∀ c ∈ selections m run,
    1 ≤ c.toNat ∧ c.toNat ≤ m.kernel.config.maxProcesses.toNat
  ticks : ticks run < m.kernel.scheduler.timeSlice.toNat * (selections m run).length +
    m.kernel.scheduler.remaining.toNat

theorem ticks_cons_le (s : Action × Machine) (rest : List (Action × Machine)) :
    Nucleus.ticks (s :: rest) ≤ Nucleus.ticks rest + 1 := by
  unfold Nucleus.ticks
  rw [List.countP_cons]
  split <;> omega

theorem ticks_cons_of_ne {s : Action × Machine} (h : s.1 ≠ .timer)
    (rest : List (Action × Machine)) : Nucleus.ticks (s :: rest) = Nucleus.ticks rest := by
  unfold Nucleus.ticks
  rw [List.countP_cons, if_neg (by simpa using h), Nat.add_zero]

theorem selections_of_chooses (h : m.Chooses n c) (rest : List (Action × Machine)) :
    selections m ((a, n) :: rest) = c :: selections n rest := by
  rw [selections, if_neg (by rw [h.switches]; omega), h.cursor]
  rfl

theorem selections_of_switches (h : n.kernel.scheduler.switches = m.kernel.scheduler.switches)
    (rest : List (Action × Machine)) : selections m ((a, n) :: rest) = selections n rest := by
  rw [selections, if_pos h]
  rfl

/-- Every selection of a run is among its selections. -/
theorem switches_of_run {run : List (Action × Machine)} (h : Run m run) (hm : Reachable m) :
    (run.foldl (fun _ s => s.2) m).kernel.scheduler.switches =
      m.kernel.scheduler.switches + (selections m run).length := by
  induction h with
  | nil => rfl
  | @cons m n a rest ha _ ih =>
    rw [List.foldl_cons, ih (hm.act ha)]
    cases turned_acted (bound_of_reachable hm) (act_done ha) with
    | chose hc =>
      rw [selections_of_chooses hc, hc.switches, List.length_cons]
      omega
    | held _ hheld => rw [selections_of_switches hheld.switches, hheld.switches]
    | ticked hw _ hstill =>
      have hswitches := hstill.switches.trans hw.switches
      rw [selections_of_switches hswitches]
      exact congrArg (· + _) hswitches

theorem bypassed_nil (hm : m.kernel.Sized) : Bypassed id m [] := by
  refine ⟨fun s hs => ?_, fun c hc => ?_, .nil, fun c hc => ?_, ?_⟩
  · cases hs
  · cases hc
  · cases hc
  · have := hm.positive
    show 0 < _
    omega

/-- A selection of another process comes first. -/
theorem Bypassed.chose {rest : List (Action × Machine)} (hm : m.kernel.Sized)
    (hn : n.kernel.Bound) (hs : n.kernel.Sized) (h : m.Chooses n c) (hready : n.Ready id)
    (hnear : RoundRobin.distance (some c) id < RoundRobin.distance m.kernel.scheduler.cursor id)
    (hrest : Bypassed id n rest) : Bypassed id m ((a, n) :: rest) := by
  have hcursor : ∀ d ∈ selections n rest,
      RoundRobin.distance (some d) id < RoundRobin.distance (some c) id := by
    intro d hd
    rw [← h.cursor]
    exact hrest.near d hd
  constructor
  · intro s hs
    rcases List.mem_cons.1 hs with rfl | hs
    · exact hready
    · exact hrest.ready s hs
  · rw [selections_of_chooses h]
    intro d hd
    rcases List.mem_cons.1 hd with rfl | hd
    · exact hnear
    · exact Nat.lt_trans (hcursor d hd) hnear
  · rw [selections_of_chooses h]
    exact List.pairwise_cons.2 ⟨hcursor, hrest.nearer⟩
  · rw [selections_of_chooses h, ← h.config]
    intro d hd
    rcases List.mem_cons.1 hd with rfl | hd
    · obtain ⟨p, hp⟩ := hn.current h.current
      exact hs.ids hp
    · exact hrest.bounds d hd
  · rw [selections_of_chooses h, List.length_cons, Nat.mul_succ]
    -- A new time slice begins, of which at least one tick was left before.
    have hticks := hrest.ticks
    rw [h.timeSlice, h.remaining] at hticks
    have := ticks_cons_le (a, n) rest
    have := hm.positive
    omega

/-- Something else comes first, and it is no tick or uses up a part of the time slice. -/
theorem Bypassed.held {rest : List (Action × Machine)}
    (hcursor : n.kernel.scheduler.cursor = m.kernel.scheduler.cursor)
    (hswitches : n.kernel.scheduler.switches = m.kernel.scheduler.switches)
    (hconfig : n.kernel.config = m.kernel.config)
    (hslice : n.kernel.scheduler.timeSlice = m.kernel.scheduler.timeSlice)
    (htick : Nucleus.ticks ((a, n) :: rest) + n.kernel.scheduler.remaining.toNat ≤
      Nucleus.ticks rest + m.kernel.scheduler.remaining.toNat)
    (hready : n.Ready id) (hrest : Bypassed id n rest) : Bypassed id m ((a, n) :: rest) := by
  constructor
  · intro s hs
    rcases List.mem_cons.1 hs with rfl | hs
    · exact hready
    · exact hrest.ready s hs
  · rw [selections_of_switches hswitches, ← hcursor]
    exact hrest.near
  · rw [selections_of_switches hswitches]
    exact hrest.nearer
  · rw [selections_of_switches hswitches, ← hconfig]
    exact hrest.bounds
  · rw [selections_of_switches hswitches, ← hslice]
    have := hrest.ticks
    omega

/-- One more action before the rest of the run. -/
theorem bypassed_cons {rest : List (Action × Machine)} (hm : Reachable m)
    (ha : m.act a = .done n ()) (hready : m.Ready id)
    (hq : n.kernel.processes.get? id = some q) (hid : id ∉ selections m ((a, n) :: rest))
    (hrest : n.Ready id → id ∉ selections n rest → Bypassed id n rest) :
    Bypassed id m ((a, n) :: rest) := by
  have hbound := bound_of_reachable hm
  have hsized := sized_of_reachable hm
  have hn := hm.act ha
  obtain ⟨p, hp, hstate⟩ := hready
  cases turned_acted hbound (act_done ha) with
  | @chose c hc =>
    rw [selections_of_chooses hc] at hid
    have hne : ¬ c = id := fun e => hid (e ▸ List.mem_cons_self)
    obtain ⟨hqready, hnear⟩ := (hc.others hp hstate hq).resolve_left hne
    have hnready : n.Ready id := ⟨q, hq, hqready⟩
    exact (hrest hnready fun h => hid (List.mem_cons_of_mem _ h)).chose hsized
      (bound_of_reachable hn) (sized_of_reachable hn) hc hnready hnear
  | held htimer hheld =>
    rw [selections_of_switches hheld.switches] at hid
    have hnready : n.Ready id := ⟨q, hq, hheld.ready hp hstate hq⟩
    -- A tick would count down the time slice: there is a process, so one has the CPU.
    have hne : a ≠ .timer := by
      intro e
      rw [hbound.idle (htimer e)] at hp
      cases hp
    refine (hrest hnready hid).held hheld.cursor hheld.switches hheld.config hheld.timeSlice ?_
      hnready
    exact Nat.le_of_eq (by rw [ticks_cons_of_ne hne, hheld.remaining])
  | @ticked w hw hs hstill =>
    have hswitches : n.kernel.scheduler.switches = m.kernel.scheduler.switches :=
      hstill.switches.trans hw.switches
    rw [selections_of_switches hswitches] at hid
    have hnready : n.Ready id := by
      obtain ⟨u, hu, huq⟩ := hstill.table.back hq
      exact ⟨q, hq, huq (hw.holds.ready hp hstate hu)⟩
    refine (hrest hnready hid).held (hstill.cursor.trans hw.cursor) hswitches
      (hstill.config.trans hw.config) (hstill.timeSlice.trans hw.timeSlice) ?_ hnready
    obtain ⟨hless, _⟩ := remaining_of_tick (hw.holds.sized hsized) hs
    have hremaining : n.kernel.scheduler.remaining.toNat + 1 =
        m.kernel.scheduler.remaining.toNat := by
      rw [hstill.remaining, ← hw.remaining]
      exact hless
    have := ticks_cons_le (a, n) rest
    omega

theorem bypassed_of_run {run : List (Action × Machine)} (h : Run m run) (hm : Reachable m)
    (hready : m.Ready id) (hstays : ∀ s ∈ run, s.2.kernel.processes.get? id ≠ none)
    (hid : id ∉ selections m run) : Bypassed id m run := by
  induction h with
  | nil => exact bypassed_nil (sized_of_reachable hm)
  | @cons m n a rest ha _ ih =>
    obtain ⟨q, hq⟩ := Option.ne_none_iff_exists'.1 (hstays (a, n) List.mem_cons_self)
    exact bypassed_cons hm ha hready hq hid fun hnready hnid =>
      ih (hm.act ha) hnready (fun s hs => hstays s (List.mem_cons_of_mem _ hs)) hnid

theorem length_le_of_bounds {l : List ProcessId} {limit : Nat} (hl : l.Nodup)
    (h : ∀ c ∈ l, 1 ≤ c.toNat ∧ c.toNat ≤ limit) : l.length ≤ limit := by
  have hnodup : (l.map UInt64.toNat).Nodup :=
    List.Pairwise.map _ (fun _ _ hne e => hne (UInt64.toNat_inj.1 e)) hl
  have hsub : l.map UInt64.toNat ⊆ List.range' 1 limit := by
    intro i hi
    obtain ⟨c, hc, rfl⟩ := List.mem_map.1 hi
    have := h c hc
    exact List.mem_range'_1.2 (by omega)
  have := hnodup.length_le_of_subset hsub
  rwa [List.length_map, List.length_range'] at this

/-- A process that is ready stays so until it is selected or removed. Until then no process is
selected twice, and fewer are selected than there can be; so there are fewer ticks of the timer
than as many time slices have. -/
theorem bypass_bounded {run : List (Action × Machine)} (hm : Reachable m)
    (hready : m.Ready id) (h : Run m run)
    (hstays : ∀ s ∈ run, s.2.kernel.processes.get? id ≠ none) (hid : id ∉ selections m run) :
    (∀ s ∈ run, s.2.Ready id) ∧
    (selections m run).Nodup ∧
    (selections m run).length ≤ m.kernel.config.maxProcesses.toNat - 1 ∧
    ticks run < m.kernel.config.maxProcesses.toNat * m.kernel.config.timeSlice.toNat := by
  have hsized := sized_of_reachable hm
  have hrun := bypassed_of_run h hm hready hstays hid
  have hnodup : (selections m run).Nodup := hrun.nearer.imp fun hlt e => by
    rw [e] at hlt
    exact Nat.lt_irrefl _ hlt
  have hlength : (selections m run).length + 1 ≤ m.kernel.config.maxProcesses.toNat := by
    obtain ⟨p, hp, _⟩ := hready
    refine length_le_of_bounds (List.nodup_cons.2 ⟨hid, hnodup⟩) fun c hc => ?_
    rcases List.mem_cons.1 hc with rfl | hc
    · exact hsized.ids hp
    · exact hrun.bounds c hc
  refine ⟨hrun.ready, hnodup, by omega, ?_⟩
  rw [← hsized.timeSlice]
  calc
    ticks run < m.kernel.scheduler.timeSlice.toNat * (selections m run).length +
        m.kernel.scheduler.remaining.toNat := hrun.ticks
    _ ≤ m.kernel.scheduler.timeSlice.toNat * ((selections m run).length + 1) :=
        Nat.add_le_add_left hsized.bounded _
    _ ≤ m.kernel.scheduler.timeSlice.toNat * m.kernel.config.maxProcesses.toNat :=
        Nat.mul_le_mul_left _ hlength
    _ = _ := Nat.mul_comm _ _

/-- The first of three processes yields: the second one is selected, and the third one is still
ready. -/
theorem bypass_bounded_yield : ∃ m n,
    trial (.boot trialEntry :: calls 0 .spawn 0x2000 ++ calls 0 .spawn 0x3000 ++
      [.compute (asking 0 .yieldCpu 0) .zeroed []]) = .done m () ∧
    Run m [(.request, n)] ∧ selections m [(.request, n)] = [2] ∧ n.Ready 3 := by
  obtain ⟨m, hm, hcheck⟩ := Outcome.exists_of_endsIn
    (trial (.boot trialEntry :: calls 0 .spawn 0x2000 ++ calls 0 .spawn 0x3000 ++
      [.compute (asking 0 .yieldCpu 0) .zeroed []]))
    (fun m => ((m.kernel.processes.get? 3).any fun p => p.state == .ready) &&
      (m.act .request).endsIn fun n =>
        (n.kernel.processes.get? 3).isSome && selections m [(.request, n)] == [2])
    (by decide +kernel)
  simp only [Bool.and_eq_true, Option.any_eq_true, beq_iff_eq] at hcheck
  obtain ⟨hready, hends⟩ := hcheck
  have hready : m.Ready 3 := hready
  obtain ⟨n, hn, hcheck⟩ := Outcome.exists_of_endsIn _ _ hends
  simp only [Bool.and_eq_true, beq_iff_eq] at hcheck
  obtain ⟨hstays, hselected⟩ := hcheck
  have hrun : Run m [(.request, n)] := .cons hn .nil
  obtain ⟨hstill, _⟩ := bypass_bounded (.trial hm) hready hrun
    (by simpa [Option.isSome_iff_ne_none] using hstays) (by rw [hselected]; decide)
  exact ⟨m, n, hm, hrun, hselected, hstill (.request, n) List.mem_cons_self⟩

end Machine
end Nucleus
