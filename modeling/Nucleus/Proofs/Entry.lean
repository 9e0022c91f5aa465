import Nucleus.Proofs.Watchers

/-!
# Nucleus.Proofs.Entry

Which traps reach the hooks of a line. Two places decide on that independently: a process may watch
any line of the vector table, and the way into the kernel sends the vectors of the timer and of
requests elsewhere before it looks at lines. The vectors of lines 0 and 96 are these two. So a trap
announces itself to the hooks of its line exactly if the line is another one; whoever watches line 0
or line 96 is told that all is well and hears nothing.

* `interruptEntry_of_free`: a trap through a line announces itself and does nothing else.
* `trapEntry_timer`, `trapEntry_request`: the two vectors that are sent elsewhere.
* `trap_announced`: what becomes of a trap on a line that is watched.
-/

namespace Nucleus

/-- The first line has the vector of the timer. -/
def timerLine : Word := 0

/-- The line that has the vector of requests. -/
def requestLine : Word := 96

variable {frame : Registers} {line : Word}

theorem vector_eq_timer (hframe : frame.vector.toNat = 32 + line.toNat) :
    frame.vector = Registers.timerVector ↔ line = timerLine := by
  rw [← UInt64.toNat_inj, ← UInt64.toNat_inj, hframe]
  show 32 + line.toNat = 32 ↔ line.toNat = 0
  omega

theorem vector_eq_request (hframe : frame.vector.toNat = 32 + line.toNat) :
    frame.vector = Registers.requestVector ↔ line = requestLine := by
  rw [← UInt64.toNat_inj, ← UInt64.toNat_inj, hframe]
  show 32 + line.toNat = 128 ↔ line.toNat = 96
  omega

theorem Inbox.eventOf?_eq_some (hframe : frame.vector.toNat = 32 + line.toNat)
    (hline : line.toNat < 0x100000000) : eventOf? frame = some (.interrupt line) := by
  unfold eventOf?
  rw [Machine.line?_eq_some hframe]
  simp only
  rw [Machine.toUInt64_toUInt32 hline]

theorem VectorTable.triggered_eq (t : VectorTable) (hframe : frame.vector.toNat = 32 + line.toNat)
    (hline : line.toNat < 0x100000000) : t.triggered frame = t.hooksOn line := by
  unfold triggered
  rw [Machine.line?_eq_some hframe]
  simp only
  rw [Machine.toUInt64_toUInt32 hline]

namespace Machine

variable {m n : Machine} {id : ProcessId}

/-- A trap through a line is announced, whether or not the kernel's slot is locked. -/
theorem interruptEntry_of_free (hroute : m.locks.route = false)
    (hcontroller : m.locks.controller = false) (hi : m.installed = true) (frame : Registers) :
    m.interruptEntry frame = .done (m.announced frame) () := by
  obtain ⟨k, r, idle, activated, journal, ⟨slot, route, controller⟩, installed⟩ := m
  cases hroute
  cases hcontroller
  cases hi
  rfl

/-- The announcements of a trap stand behind what waits in the inbox already, if there is room for
them. -/
theorem pending_announced (hm : Reachable m) (hframe : frame.vector.toNat = 32 + line.toNat)
    (hline : line.toNat < 0x100000000)
    (hroom : m.kernel.devices.inbox.pending.length +
      (m.kernel.devices.vectors.hooksOn line).length ≤ m.kernel.config.inboxCapacity.toNat) :
    (m.announced frame).kernel.devices.inbox.pending = m.kernel.devices.inbox.pending ++
      (m.kernel.devices.vectors.hooksOn line).map fun h => (h.owner, .interrupt line) := by
  show (Inbox.announceAll frame m.kernel.devices.inbox _).pending = _
  rw [Inbox.pending_announceAll (Inbox.eventOf?_eq_some hframe hline),
    VectorTable.triggered_eq _ hframe hline, room_of_reachable hm, List.take_of_length_le]
  rw [List.length_map]
  omega

/-- What an operation says is not needed where a trap made it. -/
theorem withSlot_forget {α : Type} (op : Machine → Outcome α) :
    (m.withSlot fun m => (op m).andThen fun m _ => .done m ()) = forget (m.withSlot op) := by
  unfold withSlot forget
  split
  · rfl
  · dsimp only
    cases op { m with locks := { m.locks with slot := true } } <;> rfl

theorem trapEntry_timer (hl : m.locks = .free) (hi : m.installed = true)
    (hv : m.frame.vector = Registers.timerVector) : m.trapEntry = m.act .timer := by
  have hne : m.frame.vector ≠ Registers.requestVector := by
    rw [hv]
    decide
  have hslot : (m.installed && !m.locks.slot) = true := by
    rw [hi, hl]
    rfl
  show m.trapEntry = forget (m.withKernel timerInterrupt)
  unfold trapEntry timerEntry withKernel
  rw [if_neg hne, if_pos hv, if_pos hslot, if_pos hi]
  exact withSlot_forget timerInterrupt

theorem trapEntry_request (hi : m.installed = true)
    (hv : m.frame.vector = Registers.requestVector) : m.trapEntry = m.act .request := by
  show m.trapEntry = m.withKernel request
  unfold trapEntry requestEntry withKernel withSlot
  rw [if_pos hv, if_pos hi]
  simp only [hi, if_true]

/-- A process has watched a line, the kernel is installed, and there is room in the inbox for all
hooks of the line. A trap with the line's vector then puts the event for the process in the inbox,
also while the kernel idles with its slot locked, unless it is line 0 or line 96; a trap with the
vector of these is a tick of the timer or a request, and no hook hears of it. -/
theorem trap_announced (hm : Reachable m) (hi : m.installed = true) {p : Process}
    (hline : line.toNat < 0x100000000) (hframe : frame.vector.toNat = 32 + line.toNat)
    (hp : m.kernel.processes.get? id = some p) (hw : watched line id m.journal = true)
    (hroom : m.kernel.devices.inbox.pending.length +
      (m.kernel.devices.vectors.hooksOn line).length ≤ m.kernel.config.inboxCapacity.toNat) :
    (line ≠ timerLine → line ≠ requestLine → ∀ slot, ∃ n,
      ({ m with frame, locks := { m.locks with slot } } : Machine).trapEntry = .done n () ∧
      n.kernel.devices.inbox.pending = m.kernel.devices.inbox.pending ++
        ((m.kernel.devices.vectors.hooksOn line).map fun h => (h.owner, .interrupt line)) ∧
      (id, .interrupt line) ∈ n.kernel.devices.inbox.pending) ∧
    (line = timerLine → ({ m with frame } : Machine).trapEntry =
      ({ m with frame } : Machine).act .timer) ∧
    (line = requestLine → ({ m with frame } : Machine).trapEntry =
      ({ m with frame } : Machine).act .request) := by
  have hl := locks_of_reachable hm
  refine ⟨fun htimer hrequest slot => ?_, fun he => ?_, fun he => ?_⟩
  · let e : Machine := { m with frame, locks := { m.locks with slot } }
    have hentry : e.trapEntry = e.interruptEntry frame := by
      unfold trapEntry
      rw [if_neg (mt (vector_eq_request hframe).1 hrequest),
        if_neg (mt (vector_eq_timer hframe).1 htimer),
        if_pos (by exact Option.isSome_iff_exists.2 ⟨_, line?_eq_some hframe⟩)]
    have hfree : e.locks.route = false ∧ e.locks.controller = false := by
      show m.locks.route = false ∧ m.locks.controller = false
      rw [hl]
      exact ⟨rfl, rfl⟩
    have hpending : (e.announced frame).kernel.devices.inbox.pending = _ :=
      pending_announced (m := m) hm hframe hline hroom
    refine ⟨e.announced frame, ?_, hpending, ?_⟩
    · rw [hentry]
      exact interruptEntry_of_free hfree.1 hfree.2 hi frame
    · rw [hpending]
      have hhook : ⟨line, id⟩ ∈ m.kernel.devices.vectors.hooks :=
        attentive_of_reachable hm id line ⟨p, hp⟩ hw
      have hon : ⟨line, id⟩ ∈ m.kernel.devices.vectors.hooksOn line :=
        List.mem_filter.2 ⟨hhook, beq_self_eq_true line⟩
      exact List.mem_append_right _ (List.mem_map.2 ⟨⟨line, id⟩, hon, rfl⟩)
  · exact trapEntry_timer hl hi ((vector_eq_timer hframe).2 he)
  · exact trapEntry_request hi ((vector_eq_request hframe).2 he)

/-- The first process watches lines 0, 1 and 96, and the kernel is installed. -/
def threeLines : List Action :=
  .boot trialEntry :: calls 0 .watchLine timerLine ++ calls 0 .watchLine 1 ++
    calls 0 .watchLine requestLine ++ [.install]

theorem trap_announced_first : ∃ m n, trial threeLines = .done m () ∧
    ({ m with frame := .ofVector 33, locks := { m.locks with slot := true } } : Machine).trapEntry =
      .done n () ∧ (1, .interrupt 1) ∈ n.kernel.devices.inbox.pending := by
  obtain ⟨m, hm, hcheck⟩ := Outcome.exists_of_endsIn (trial threeLines)
    (fun m => m.installed && (m.kernel.processes.get? 1).isSome && watched 1 1 m.journal &&
      decide (m.kernel.devices.inbox.pending.length +
        (m.kernel.devices.vectors.hooksOn 1).length ≤ m.kernel.config.inboxCapacity.toNat))
    (by decide +kernel)
  simp only [Bool.and_eq_true, decide_eq_true_eq] at hcheck
  obtain ⟨⟨⟨hi, hsome⟩, hw⟩, hroom⟩ := hcheck
  obtain ⟨p, hp⟩ := Option.isSome_iff_exists.1 hsome
  have hframe : (Registers.ofVector 33).vector.toNat = 32 + (1 : Word).toNat := rfl
  obtain ⟨hannounced, _, _⟩ := trap_announced (.trial hm) hi (by decide) hframe hp hw hroom
  obtain ⟨n, hn, _, hmem⟩ := hannounced (by decide) (by decide) true
  exact ⟨m, n, hm, hn, hmem⟩

/-- Lines 0 and 96 are watched as well, but their traps are a tick and a request for the caller's
identifier, and nothing is announced. -/
theorem trap_unheard : ∃ m s t p q, trial threeLines = .done m () ∧ Reachable m ∧
    m.installed = true ∧ watched timerLine 1 m.journal = true ∧
    watched requestLine 1 m.journal = true ∧ m.kernel.devices.inbox.pending = [] ∧
    m.kernel.devices.vectors.hooks.length ≤ m.kernel.config.inboxCapacity.toNat ∧
    ({ m with frame := .ofVector 32 } : Machine).trapEntry = .done s () ∧
    s.kernel.devices.inbox.pending = [] ∧ s.kernel.processes.get? 1 = some p ∧
    p.events.items = [] ∧
    ({ m with frame := { asking 0 .getId 0 with vector := 128 } } : Machine).trapEntry =
      .done t () ∧
    t.kernel.devices.inbox.pending = [] ∧ t.kernel.processes.get? 1 = some q ∧
    q.events.items = [] := by
  obtain ⟨m, hm, hcheck⟩ := Outcome.exists_of_endsIn (trial threeLines)
    (fun m => m.installed && watched timerLine 1 m.journal && watched requestLine 1 m.journal &&
      m.kernel.devices.inbox.pending == [] &&
      decide (m.kernel.devices.vectors.hooks.length ≤ m.kernel.config.inboxCapacity.toNat) &&
      (({ m with frame := .ofVector 32 } : Machine).trapEntry.endsIn fun s =>
        s.kernel.devices.inbox.pending == [] &&
          (s.kernel.processes.get? 1).any fun p => p.events.items == []) &&
      (({ m with frame := { asking 0 .getId 0 with vector := 128 } } : Machine).trapEntry.endsIn
        fun t => t.kernel.devices.inbox.pending == [] &&
          (t.kernel.processes.get? 1).any fun q => q.events.items == []))
    (by decide +kernel)
  simp only [Bool.and_eq_true, decide_eq_true_eq, beq_iff_eq] at hcheck
  obtain ⟨⟨⟨⟨⟨⟨hi, htimer⟩, hrequest⟩, hempty⟩, hroom⟩, htick⟩, hcall⟩ := hcheck
  obtain ⟨s, hs, hsempty⟩ := Outcome.exists_of_endsIn _ _ htick
  obtain ⟨t, ht, htempty⟩ := Outcome.exists_of_endsIn _ _ hcall
  simp only [Bool.and_eq_true, Option.any_eq_true, beq_iff_eq] at hsempty htempty
  obtain ⟨hsinbox, p, hp, hpevents⟩ := hsempty
  obtain ⟨htinbox, q, hq, hqevents⟩ := htempty
  exact ⟨m, s, t, p, q, hm, .trial hm, hi, htimer, hrequest, hempty, hroom, hs, hsinbox, hp,
    hpevents, ht, htinbox, hq, hqevents⟩

end Machine
end Nucleus
