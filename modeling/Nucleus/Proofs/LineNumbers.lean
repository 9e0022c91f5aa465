import Nucleus.Proofs.Hooks
import Nucleus.Proofs.LineCalls

/-!
# Nucleus.Proofs.LineNumbers

Which line a vector stands for. The vectors from 32 on are those of the lines, one after the other,
so in exact integers each of them stands for one line. A line's number has 32 bits and a vector has
64, though, and what does not fit is cut off: the vectors of the lines from 2 ^ 32 on are taken for
those of the lines that have the same low bits. Up to there a trap runs just the hooks of its own
line, and all events that it raises carry the number of that line.

* `wrappedVector`: the first vector that is taken for another one's line.
* `Registers.line?_eq_some_iff`, `Registers.line?_exact_iff`: the number of the line, and when it is
  the exact one.
* `VectorTable.triggered_eq_filter`: the hooks a trap runs are those on the line of its vector.
* `vector_names_line`: what a trap through a vector does, for all vectors.
-/

namespace Nucleus

/-- The first vector of a line whose number does not fit into 32 bits. -/
def wrappedVector : Nat :=
  32 + 2 ^ 32

namespace Registers

variable {frame other : Registers} {number : UInt32}

theorem toNat_firstLineVector : firstLineVector.toNat = 32 :=
  rfl

/-- A vector that is not an exception's is that of a line, if there are enough lines. -/
theorem exists_line (h : 32 ≤ frame.vector.toNat) :
    ∃ line : Word, frame.vector.toNat = 32 + line.toNat := by
  have hdistance := UInt64.toNat_sub_of_le frame.vector firstLineVector
    (UInt64.le_iff_toNat_le.2 h)
  rw [toNat_firstLineVector] at hdistance
  exact ⟨_, by rw [hdistance]; omega⟩

theorem line?_eq_none_iff : frame.line? = none ↔ frame.vector.toNat < 32 := by
  unfold line?
  cases h : Word.sub? frame.vector firstLineVector with
  | none => exact iff_of_true rfl (Word.sub?_eq_none_iff.1 h)
  | some distance =>
    have hdistance := Word.sub?_eq_some_iff.1 h
    rw [toNat_firstLineVector] at hdistance
    exact iff_of_false nofun (by omega)

/-- The number keeps the low 32 bits of the distance from the first line's vector. -/
theorem line?_eq_some_iff : frame.line? = some number ↔
    32 ≤ frame.vector.toNat ∧ number.toNat = (frame.vector.toNat - 32) % 2 ^ 32 := by
  unfold line?
  cases h : Word.sub? frame.vector firstLineVector with
  | none =>
    have hexception := Word.sub?_eq_none_iff.1 h
    rw [toNat_firstLineVector] at hexception
    exact iff_of_false nofun (by omega)
  | some distance =>
    have hdistance := Word.sub?_eq_some_iff.1 h
    rw [toNat_firstLineVector] at hdistance
    have hvector : frame.vector.toNat - 32 = distance.toNat := by omega
    rw [Option.some.injEq, ← UInt32.toNat_inj, UInt64.toNat_toUInt32, hvector]
    exact ⟨fun h => ⟨by omega, h.symm⟩, fun h => h.2.symm⟩

/-- Two vectors whose distance from the first line's has the same low bits have the same line. -/
theorem line?_congr (hframe : 32 ≤ frame.vector.toNat)
    (hother : other.vector.toNat = 32 + (frame.vector.toNat - 32) % 2 ^ 32) :
    frame.line? = other.line? := by
  cases h : other.line? with
  | none =>
    have hexception := line?_eq_none_iff.1 h
    omega
  | some number =>
    have hnumber := (line?_eq_some_iff.1 h).2
    exact line?_eq_some_iff.2 ⟨hframe, by omega⟩

/-- The line of a vector is the exact one just below the first that wraps. -/
theorem line?_exact_iff :
    (∀ line : Nat, frame.line?.map UInt32.toNat = some line ↔ frame.vector.toNat = 32 + line) ↔
      frame.vector.toNat < wrappedVector := by
  unfold wrappedVector
  cases h : frame.line? with
  | none =>
    have hexception := line?_eq_none_iff.1 h
    exact iff_of_true (fun line => iff_of_false nofun (by omega)) (by omega)
  | some number =>
    obtain ⟨hfirst, hnumber⟩ := line?_eq_some_iff.1 h
    rw [Option.map_some]
    constructor
    · intro hexact
      have hvector := (hexact number.toNat).1 rfl
      omega
    · intro hlt line
      rw [Option.some.injEq]
      omega

end Registers

open Registers

namespace VectorTable

/-- Below the first vector that wraps, a trap runs the hooks that are on the line of its vector in
exact integers. -/
theorem triggered_eq_filter (t : VectorTable) {frame : Registers}
    (hexact : frame.vector.toNat < wrappedVector) :
    t.triggered frame = t.hooks.filter fun h => decide (frame.vector.toNat = 32 + h.line.toNat) := by
  unfold wrappedVector at hexact
  unfold triggered
  cases h : frame.line? with
  | none =>
    have hexception := line?_eq_none_iff.1 h
    exact (List.filter_eq_nil_iff.2 fun g _ => by simp; omega).symm
  | some number =>
    obtain ⟨hfirst, hnumber⟩ := line?_eq_some_iff.1 h
    refine List.filter_congr fun g _ => ?_
    rw [Bool.eq_iff_iff, beq_iff_eq, decide_eq_true_iff, ← UInt64.toNat_inj, UInt32.toNat_toUInt64]
    omega

/-- No hook is on the line of a vector behind the table's. -/
theorem triggered_eq_nil {t : VectorTable} (hw : t.Within) {frame : Registers}
    (hexact : frame.vector.toNat < wrappedVector)
    (hout : frame.vector.toNat < 32 ∨ 32 + t.lines.toNat ≤ frame.vector.toNat) :
    t.triggered frame = [] := by
  rw [triggered_eq_filter t hexact]
  refine List.filter_eq_nil_iff.2 fun h hh => ?_
  have hline := UInt64.lt_iff_toNat_lt.1 (hw h hh)
  rw [decide_eq_true_iff]
  omega

end VectorTable

namespace Machine

variable {m : Machine} {frame other : Registers} {owner : ProcessId} {hooks : List Hook}

/-- The kernel hooks nobody to a line that is not there. -/
theorem within_of_reachable (hm : Reachable m) : m.kernel.devices.vectors.Within := by
  induction hm with
  | start hk =>
    unfold Kernel.build at hk
    split at hk
    · cases hk
    · cases hk
      rintro h ⟨⟩
  | @act m n a hm ha ih =>
    intro h hh
    have hmoved := moved_act (bound_of_reachable hm) ha
    have hlines : n.kernel.devices.vectors.lines = m.kernel.devices.vectors.lines :=
      congrArg (fun f => f.2.2.2) hmoved.fixed
    rw [hlines]
    rcases Traffic.mem_hooks_move hmoved.traffic hh with hold | hdeed
    · exact ih h hold
    · exact (deed_eq_hook hdeed).2.2

/-- An announcement looks at nothing but the line that trapped. -/
theorem announce_congr (h : frame.line? = other.line?) (m : Machine) (owner : ProcessId) :
    m.announce frame owner = m.announce other owner := by
  have hevent : Inbox.eventOf? frame = Inbox.eventOf? other := by
    unfold Inbox.eventOf?
    rw [h]
  unfold announce Inbox.announce Inbox.announceNotes
  rw [hevent]

theorem runHooks_congr (h : frame.line? = other.line?) (m : Machine) (hooks : List Hook) :
    m.runHooks frame hooks = m.runHooks other hooks := by
  unfold runHooks
  rw [funext₂ fun m (g : Hook) => announce_congr h m g.owner]

theorem dispatch_congr (hl : m.locks.controller = false) (h : frame.line? = other.line?) :
    m.dispatch frame = m.dispatch other := by
  have htriggered : m.kernel.devices.vectors.triggered frame =
      m.kernel.devices.vectors.triggered other := by
    unfold VectorTable.triggered
    rw [h]
  rw [dispatch_of_free hl, dispatch_of_free hl, htriggered, runHooks_congr h]

/-- Exceptions are not announced. -/
theorem announce_exception (m : Machine) (owner : ProcessId) (h : frame.vector.toNat < 32) :
    m.announce frame owner = m := by
  have hevent : Inbox.eventOf? frame = none := by
    unfold Inbox.eventOf?
    rw [line?_eq_none_iff.2 h]
  unfold announce Inbox.announce Inbox.announceNotes
  rw [hevent]
  rfl

/-- The event of a trap has the number of the line. -/
theorem inbox_announce (m : Machine) (owner : ProcessId) {line : Word}
    (hexact : frame.vector.toNat < wrappedVector) (h : frame.vector.toNat = 32 + line.toNat) :
    (m.announce frame owner).kernel.devices.inbox =
      m.kernel.devices.inbox.push owner (.interrupt line) := by
  have hevent := Inbox.eventOf?_eq_some h (by unfold wrappedVector at hexact; omega)
  show m.kernel.devices.inbox.announce frame owner = _
  unfold Inbox.announce
  rw [hevent]

/-- The events that hooks put into the inbox all have the number of the line that trapped. -/
theorem pending_runHooks (m : Machine) (hooks : List Hook)
    (hexact : frame.vector.toNat < wrappedVector) :
    ∃ events, (m.runHooks frame hooks).kernel.devices.inbox.pending =
        m.kernel.devices.inbox.pending ++ events ∧
      ∀ item ∈ events, ∃ line : Word, item.2 = .interrupt line ∧
        line.toNat + 32 = frame.vector.toNat := by
  by_cases hfirst : frame.vector.toNat < 32
  · refine ⟨[], ?_, nofun⟩
    have hsame : m.runHooks frame hooks = m := by
      unfold runHooks
      rw [funext₂ fun m (g : Hook) => announce_exception m g.owner hfirst]
      exact List.foldl_fixed hooks
    rw [hsame, List.append_nil]
  · obtain ⟨line, hline⟩ := exists_line (Nat.not_lt.1 hfirst)
    have hevent := Inbox.eventOf?_eq_some hline (by unfold wrappedVector at hexact; omega)
    rw [runHooks_eq]
    refine ⟨_, Inbox.pending_announceAll hevent hooks _, fun item hitem => ?_⟩
    obtain ⟨h, _, rfl⟩ := List.mem_map.1 (List.mem_of_mem_take hitem)
    exact ⟨line, rfl, by omega⟩

/-- **A vector names at most one line.** The line of a vector is the exact one just below the first
vector that wraps. There, whatever hooks there are on the lines of the table, a trap runs those on
the line of its vector and no others, one after the other; none, and it changes nothing, if the
vector is an exception's or lies behind those of the table; and all events it raises have the number
of that line, as has the event where a trap is announced to one process past the table. A vector
from there on does whatever that vector does which has the same low bits behind the first line's. -/
theorem vector_names_line (hl : m.locks.controller = false)
    (hw : m.kernel.devices.vectors.Within) (frame : Registers) :
    ((∀ line : Nat, frame.line?.map UInt32.toNat = some line ↔ frame.vector.toNat = 32 + line) ↔
      frame.vector.toNat < wrappedVector) ∧
    (frame.vector.toNat < wrappedVector →
      (∃ n hooks events,
        hooks = m.kernel.devices.vectors.hooks.filter
          (fun h => decide (frame.vector.toNat = 32 + h.line.toNat)) ∧
        m.dispatch frame = .done n hooks.length ∧ n = m.runHooks frame hooks ∧
        n.kernel.devices.inbox.pending = m.kernel.devices.inbox.pending ++ events ∧
        ∀ item ∈ events, ∃ line : Word, item.2 = .interrupt line ∧
          line.toNat + 32 = frame.vector.toNat) ∧
      (frame.vector.toNat < 32 ∨
          32 + m.kernel.devices.vectors.lines.toNat ≤ frame.vector.toNat →
        m.dispatch frame = .done m 0) ∧
      ∀ owner, (frame.vector.toNat < 32 → m.announce frame owner = m) ∧
        ∀ line : Word, frame.vector.toNat = 32 + line.toNat →
          (m.announce frame owner).kernel.devices.inbox =
            m.kernel.devices.inbox.push owner (.interrupt line)) ∧
    ∀ other : Registers, 32 ≤ frame.vector.toNat →
      other.vector.toNat = 32 + (frame.vector.toNat - 32) % 2 ^ 32 →
        m.dispatch frame = m.dispatch other ∧
          ∀ owner, m.announce frame owner = m.announce other owner := by
  have hdispatch := dispatch_of_free hl frame
  refine ⟨line?_exact_iff, fun hexact => ⟨?_, fun hout => ?_, fun owner => ⟨?_, ?_⟩⟩, ?_⟩
  · obtain ⟨events, hpending, hnumbers⟩ :=
      pending_runHooks m (m.kernel.devices.vectors.triggered frame) hexact
    exact ⟨_, _, events, VectorTable.triggered_eq_filter _ hexact, hdispatch, rfl, hpending,
      hnumbers⟩
  · rw [hdispatch, VectorTable.triggered_eq_nil hw hexact hout]
    rfl
  · exact announce_exception m owner
  · exact fun line => inbox_announce m owner hexact
  · intro other hfirst hother
    have hline := line?_congr hfirst hother
    exact ⟨dispatch_congr hl hline, fun owner => announce_congr hline m owner⟩

/-- The first process watches the last line of the table. -/
def lastLine : List Action :=
  .boot trialEntry :: calls 0 .watchLine 255

/-- The vector of that line runs the hook, and so does the one that wraps to it; the next vector
runs none. -/
theorem vector_names_line_last : ∃ m n, trial lastLine = .done m () ∧
    m.dispatch (.ofVector 287) = .done n 1 ∧ m.dispatch (.ofVector 0x10000011F) = .done n 1 ∧
    m.dispatch (.ofVector 288) = .done m 0 := by
  obtain ⟨m, hm, hcheck⟩ := Outcome.exists_of_endsIn (trial lastLine)
    (fun m => decide (m.kernel.devices.vectors.lines = 256 ∧
      m.kernel.devices.vectors.hooks = [⟨255, 1⟩]))
    (by decide +kernel)
  obtain ⟨hlines, hhooks⟩ := of_decide_eq_true hcheck
  have hl : m.locks.controller = false := by rw [locks_of_reachable (.trial hm)]; rfl
  have hw := within_of_reachable (.trial hm)
  obtain ⟨_, hexact, _⟩ := vector_names_line hl hw (.ofVector 287)
  obtain ⟨_, hbehind, _⟩ := vector_names_line hl hw (.ofVector 288)
  obtain ⟨_, _, hwraps⟩ := vector_names_line hl hw (.ofVector 0x10000011F)
  obtain ⟨⟨n, hooks, _, hrun, hn, _⟩, _⟩ := hexact (by decide)
  obtain ⟨hsame, _⟩ := hwraps (.ofVector 287) (by decide) rfl
  have hone : hooks.length = 1 := by
    rw [hrun, hhooks]
    rfl
  rw [hone] at hn
  refine ⟨m, n, hm, hn, hsame.trans hn, (hbehind (by decide)).2.1 (.inr ?_)⟩
  rw [hlines]
  exact Nat.le_refl 288

/-- A hook on line 0 of 256 lines. The vector of line 2 ^ 32 lies far behind theirs, but it is taken
for that of line 0: the hook runs, and the event says line 0. -/
theorem vector_wraps : ∃ m n o, trial [] = .done m () ∧
    m.lineCall (.hook 0 1) = .done n (.ok 0) ∧
    32 + n.kernel.devices.vectors.lines.toNat ≤
      (Registers.ofVector 0x100000020).vector.toNat ∧
    (Registers.ofVector 0x100000020).line? = some 0 ∧
    n.dispatch (.ofVector 0x100000020) = .done o 1 ∧
    o.kernel.devices.inbox.pending = [(1, .interrupt 0)] ∧
    (0 : Word).toNat + 32 ≠ (Registers.ofVector 0x100000020).vector.toNat := by
  obtain ⟨m, hm, hcheck⟩ := Outcome.exists_of_endsIn (trial [])
    (fun m => (m.lineCall (.hook 0 1)).yields (.ok 0) fun n =>
      decide (n.kernel.devices.vectors.lines = 256) &&
        (n.dispatch (.ofVector 0x100000020)).yields 1 fun o =>
          o.kernel.devices.inbox.pending == [(1, .interrupt 0)])
    (by decide +kernel)
  obtain ⟨n, hn, hcheck⟩ := Outcome.exists_of_yields _ _ _ hcheck
  obtain ⟨hlines, hdispatch⟩ := Bool.and_eq_true_iff.1 hcheck
  obtain ⟨o, ho, hpending⟩ := Outcome.exists_of_yields _ _ _ hdispatch
  refine ⟨m, n, o, hm, hn, ?_, rfl, ho, eq_of_beq hpending, by decide⟩
  rw [of_decide_eq_true hlines]
  decide

end Machine
end Nucleus
