import Mathlib.Algebra.Order.BigOperators.Group.Multiset
import Mathlib.Algebra.BigOperators.Group.Finset.Basic
import Nucleus.Proofs.Arrivals

/-!
# Nucleus.Proofs.LineCalls

What a vector table knows of the calls that were made on it. It keeps no history: it has the hooks
and the enabled lines of the moment, and each call edits them. All the same they are what a look
back at the calls would give. A call on a line that is not there leaves no trace; of the others, a
registration stands as long as its owner's hooks are not taken away, and a line is enabled if the
last call that set it said so.

* `LineCall`: the calls, and `LineCall.standing`, `LineCall.lastSetting`: what is left of them.
* `VectorTable.Takes`: what an accepted call does to each line.
* `VectorTable.Records`: the table agrees with a history; `Records.take` is the step from one call
  to the next.
* `length_hooksOf`: the hooks that go with their owner, counted line by line.
* `Machine.runHooks`: the hooks of a line announce a trap one after the other.
* `line_history`: the table agrees with its calls, whichever they were.
-/

namespace Nucleus

/-- A call that may change the vector table. -/
inductive LineCall where
  /-- Enables or disables a line. -/
  | set (line : Word) (on : Bool)
  | hook (line : Word) (owner : ProcessId)
  /-- Takes away all hooks of a process. -/
  | unhook (owner : ProcessId)
deriving DecidableEq

namespace LineCall

/-- The line that a call is made on. Hooks are taken away on all lines. -/
def line? : LineCall → Option Word
  | set line _ => some line
  | hook line _ => some line
  | unhook _ => none

/-- The calls that are made on a line of the table, if they are made on a line. -/
def accepted (lines : Word) (calls : List LineCall) : List LineCall :=
  calls.filter fun c => c.line?.all fun line => decide (line < lines)

/-- What a call sets a line to, if it does. -/
def setting? (line : Word) : LineCall → Option Bool
  | set l on => if l = line then some on else none
  | hook _ _ => none
  | unhook _ => none

/-- What the last call that set a line set it to. No line is enabled from the beginning. -/
def lastSetting (line : Word) (calls : List LineCall) : Bool :=
  (calls.filterMap (setting? line)).getLastD false

/-- The hooks that calls leave on a line: one for each registration whose owner's hooks are not
taken away by a later call, the oldest first. -/
def standing (line : Word) : List LineCall → List Hook
  | [] => []
  | hook l owner :: later =>
    if l = line ∧ unhook owner ∉ later then
      ⟨l, owner⟩ :: standing line later
    else
      standing line later
  | set _ _ :: later => standing line later
  | unhook _ :: later => standing line later

variable {lines line : Word} {calls : List LineCall} {c : LineCall} {h : Hook}

/-! ### One call more -/

theorem accepted_snoc_of_accepted (h : c.line?.all (fun line => decide (line < lines)) = true) :
    accepted lines (calls ++ [c]) = accepted lines calls ++ [c] := by
  unfold accepted
  rw [List.filter_append, List.filter_singleton, h]
  rfl

theorem accepted_snoc_of_refused (h : c.line? = some line) (hline : ¬ line < lines) :
    accepted lines (calls ++ [c]) = accepted lines calls := by
  unfold accepted
  rw [List.filter_append, List.filter_singleton, h, Option.all_some, decide_eq_false hline,
    cond_false, List.append_nil]

theorem lastSetting_snoc (line : Word) (calls : List LineCall) (c : LineCall) :
    lastSetting line (calls ++ [c]) = (setting? line c).getD (lastSetting line calls) := by
  unfold lastSetting
  rw [List.filterMap_append]
  cases hc : setting? line c with
  | none => simp [hc]
  | some on => simp [hc]

/-- A call leaves all hooks but those whose owner it names, and may add one. -/
theorem standing_snoc (line : Word) (calls : List LineCall) (c : LineCall) :
    standing line (calls ++ [c]) =
      (standing line calls).filter (fun h => decide (c ≠ unhook h.owner)) ++ standing line [c] := by
  induction calls with
  | nil => rfl
  | cons first later ih =>
    cases first with
    | set l on => exact ih
    | unhook owner => exact ih
    | hook l owner =>
      -- The last call is a later one for this registration too, so it may end it.
      simp only [List.cons_append, standing, ih, List.mem_append, List.mem_singleton, not_or]
      by_cases hl : l = line ∧ unhook owner ∉ later
      · rw [if_pos hl]
        by_cases hc : c = unhook owner
        · rw [if_neg (fun h => h.2.2 hc.symm), List.filter_cons_of_neg (by simpa using hc)]
        · rw [if_pos ⟨hl.1, hl.2, Ne.symm hc⟩, List.filter_cons_of_pos (by simpa using hc),
            List.cons_append]
      · rw [if_neg hl, if_neg fun h => hl ⟨h.1, h.2.1⟩]

/-- What stands on a line was registered on it. -/
theorem mem_standing (hh : h ∈ standing line calls) : hook line h.owner ∈ calls := by
  induction calls with
  | nil => cases hh
  | cons first later ih =>
    cases first with
    | set l on => exact List.mem_cons_of_mem _ (ih hh)
    | unhook owner => exact List.mem_cons_of_mem _ (ih hh)
    | hook l owner =>
      rw [standing] at hh
      split at hh
      · rename_i hl
        rcases List.mem_cons.1 hh with rfl | hh
        · rw [hl.1]
          exact List.mem_cons_self
        · exact List.mem_cons_of_mem _ (ih hh)
      · exact List.mem_cons_of_mem _ (ih hh)

end LineCall

open LineCall

namespace VectorTable

variable {t t' : VectorTable} {c : LineCall} {calls : List LineCall} {line : Word}
  {owner : ProcessId} {on : Bool}

/-- What a call does to a table that accepts it, line by line. -/
structure Takes (t : VectorTable) (c : LineCall) (t' : VectorTable) : Prop where
  lines : t'.lines = t.lines
  hooksOn : ∀ line, t'.hooksOn line =
    (t.hooksOn line).filter (fun h => decide (c ≠ .unhook h.owner)) ++ standing line [c]
  isEnabled : ∀ line, t'.isEnabled line = (setting? line c).getD (t.isEnabled line)

/-- The table has on each line the hooks and the setting that calls leave there. -/
structure Records (t : VectorTable) (calls : List LineCall) : Prop where
  hooksOn : ∀ line, t.hooksOn line = standing line (accepted t.lines calls)
  isEnabled : ∀ line, t.isEnabled line = lastSetting line (accepted t.lines calls)

/-- All hooks are on lines of the table. -/
def Within (t : VectorTable) : Prop :=
  ∀ h ∈ t.hooks, h.line < t.lines

/-! ### Single calls -/

theorem exists_setEnabled (h : line < t.lines) (on : Bool) :
    ∃ t', t.setEnabled line on = .ok t' := by
  unfold setEnabled
  rw [if_pos h]
  exact ⟨_, rfl⟩

theorem exists_hook (h : line < t.lines) (owner : ProcessId) :
    ∃ t', t.hook line owner = .ok t' := by
  unfold hook
  rw [if_pos h]
  exact ⟨_, rfl⟩

theorem takes_setEnabled (h : t.setEnabled line on = .ok t') : t.Takes (.set line on) t' := by
  unfold setEnabled at h
  split at h
  · cases h
    refine ⟨rfl, fun l => ?_, fun l => ?_⟩
    · simp [VectorTable.hooksOn, standing]
    · unfold VectorTable.isEnabled setting?
      by_cases hl : line = l
      · subst hl
        cases on <;> simp
      · cases on <;> simp [hl, Ne.symm hl]
  · cases h

theorem takes_hook (h : t.hook line owner = .ok t') : t.Takes (.hook line owner) t' := by
  unfold hook at h
  split at h
  · cases h
    refine ⟨rfl, fun l => ?_, fun l => rfl⟩
    by_cases hl : line = l <;> simp [VectorTable.hooksOn, standing, hl]
  · cases h

theorem hooksOn_unhook (t : VectorTable) (owner : ProcessId) (line : Word) :
    (t.unhook owner).hooksOn line = (t.hooksOn line).filter fun h => h.owner != owner :=
  List.filter_comm ..

theorem takes_unhook (t : VectorTable) (owner : ProcessId) :
    t.Takes (.unhook owner) (t.unhook owner) := by
  refine ⟨rfl, fun l => ?_, fun l => rfl⟩
  rw [hooksOn_unhook, standing, standing, List.append_nil]
  refine List.filter_congr fun h _ => ?_
  simp [bne, eq_comm, Bool.beq_eq_decide_eq]

theorem records_new (lines : Word) : (new lines).Records [] :=
  ⟨fun _ => rfl, fun _ => rfl⟩

/-- A call on a line of the table enters its record. -/
theorem Records.take (h : t.Records calls) (ht : t.Takes c t')
    (hc : c.line?.all (fun line => decide (line < t.lines)) = true) :
    t'.Records (calls ++ [c]) := by
  refine ⟨fun line => ?_, fun line => ?_⟩
  · rw [ht.hooksOn, h.hooksOn, ht.lines, accepted_snoc_of_accepted hc, standing_snoc]
  · rw [ht.isEnabled, h.isEnabled, ht.lines, accepted_snoc_of_accepted hc, lastSetting_snoc]

/-- A call on any other line does not. -/
theorem Records.refuse (h : t.Records calls) (hc : c.line? = some line) (hline : ¬ line < t.lines) :
    t.Records (calls ++ [c]) := by
  refine ⟨fun l => ?_, fun l => ?_⟩
  · rw [h.hooksOn, accepted_snoc_of_refused hc hline]
  · rw [h.isEnabled, accepted_snoc_of_refused hc hline]

theorem Records.within (h : t.Records calls) : t.Within := by
  intro g hg
  have hstands : g ∈ standing g.line (accepted t.lines calls) := by
    rw [← h.hooksOn]
    exact List.mem_filter.2 ⟨hg, beq_self_eq_true g.line⟩
  have haccepted := (List.mem_filter.1 (mem_standing hstands)).2
  exact of_decide_eq_true haccepted

/-! ### Counting hooks -/

/-- What a line loses when the hooks of a process are taken away. -/
theorem length_sub_unhook (t : VectorTable) (owner : ProcessId) (line : Word) :
    (t.hooksOn line).length - ((t.unhook owner).hooksOn line).length =
      (t.hooksOf owner).countP fun h => h.line == line := by
  have hgone : (t.hooksOf owner).countP (fun h => h.line == line) =
      (t.hooksOn line).countP fun h => h.owner == owner := by
    unfold hooksOf VectorTable.hooksOn
    rw [List.countP_filter, List.countP_filter]
    exact List.countP_congr fun h _ => by rw [Bool.and_comm]
  have hall := List.length_eq_countP_add_countP (fun h : Hook => h.owner == owner)
    (l := t.hooksOn line)
  rw [hooksOn_unhook, hgone, ← List.countP_eq_length_filter]
  unfold bne
  simp only [Bool.not_eq_true, Bool.decide_eq_false] at hall
  omega

/-- The hooks of a process are the ones that all lines lose with it. -/
theorem length_hooksOf (hw : t.Within) (owner : ProcessId) :
    (t.hooksOf owner).length = ∑ k ∈ Finset.range t.lines.toNat,
      ((t.hooksOn (.ofNat k)).length - ((t.unhook owner).hooksOn (.ofNat k)).length) := by
  have hrange : ∀ k ∈ ((t.hooksOf owner).map fun h => h.line.toNat : Multiset Nat),
      k ∈ Finset.range t.lines.toNat := by
    intro k hk
    obtain ⟨h, hh, rfl⟩ := List.mem_map.1 (Multiset.mem_coe.1 hk)
    exact Finset.mem_range.2 (UInt64.lt_iff_toNat_lt.1 (hw h (List.mem_filter.1 hh).1))
  -- How often a line comes up among the hooks of the process is what it loses with them.
  have hcount := Multiset.sum_count_eq_card hrange
  rw [Multiset.coe_card, List.length_map] at hcount
  rw [← hcount]
  refine Finset.sum_congr rfl fun k hk => ?_
  have hlt := Nat.lt_trans (Finset.mem_range.1 hk) (Word.toNat_lt t.lines)
  have hword : (UInt64.ofNat k).toNat = k := UInt64.toNat_ofNat_of_lt' hlt
  rw [length_sub_unhook, Multiset.coe_count, List.count, List.countP_map]
  refine List.countP_congr fun h _ => ?_
  simp [← UInt64.toNat_inj, hword]

end VectorTable

namespace Machine

variable {m n : Machine} {c : LineCall} {line : Word} {frame : Registers}

/-! ### Calls on a machine -/

/-- One call. The answer is the number of hooks that it took away. -/
def lineCall (m : Machine) : LineCall → Outcome (Except LineError Nat)
  | .set line on => (m.setLine line on).andThen fun m r => .done m (r.map fun _ => 0)
  | .hook line owner => (m.hookLine owner line).andThen fun m r => .done m (r.map fun _ => 0)
  | .unhook owner => m.withController fun m => ((m.unhook owner).1, .ok (m.unhook owner).2)

/-- The calls in a list, one after the other. -/
def lineCalls (m : Machine) : List LineCall → Outcome Unit
  | [] => .done m ()
  | c :: rest => (m.lineCall c).andThen fun m _ => m.lineCalls rest

/-- Some hooks announce a trap, one after the other. -/
def runHooks (m : Machine) (frame : Registers) (hooks : List Hook) : Machine :=
  hooks.foldl (fun m h => m.announce frame h.owner) m

/-- With the lock free, an edit of the table is made and told of, or refused. -/
theorem edit_of_free (hl : m.locks.controller = false)
    (edit : VectorTable → Except LineError VectorTable) (told : Note) :
    (m.withController fun m =>
      match edit m.kernel.devices.vectors with
      | .error e => (m, .error e)
      | .ok t => ((m.setVectors t).note told, (.ok () : Except LineError Unit))) =
      match edit m.kernel.devices.vectors with
      | .error e => .done m (.error e)
      | .ok t => .done ((m.setVectors t).note told) (.ok ()) := by
  cases ht : edit m.kernel.devices.vectors with
  | error e =>
    refine withController_eq hl rfl ?_
    simp only [ht]
  | ok t =>
    refine withController_eq hl rfl ?_
    simp only [ht]
    rfl

theorem setLine_of_free (hl : m.locks.controller = false) (line : Word) (on : Bool) :
    m.setLine line on =
      match m.kernel.devices.vectors.setEnabled line on with
      | .error e => .done m (.error e)
      | .ok t => .done ((m.setVectors t).note (.lineSet line on)) (.ok ()) :=
  edit_of_free hl (fun t => t.setEnabled line on) (.lineSet line on)

theorem hookLine_of_free (hl : m.locks.controller = false) (owner : ProcessId) (line : Word) :
    m.hookLine owner line =
      match m.kernel.devices.vectors.hook line owner with
      | .error e => .done m (.error e)
      | .ok t => .done ((m.setVectors t).note (.hooked line owner)) (.ok ()) :=
  edit_of_free hl (fun t => t.hook line owner) (.hooked line owner)

theorem vectors_dropHooks (m : Machine) (owner : ProcessId) :
    (m.dropHooks owner).kernel.devices.vectors = m.kernel.devices.vectors.unhook owner := by
  unfold dropHooks unhook
  simp only
  split <;> rfl

theorem locks_dropHooks (m : Machine) (owner : ProcessId) :
    (m.dropHooks owner).locks = m.locks :=
  congrArg Prod.fst (m.fixed_dropHooks owner)

theorem lineCall_unhook (hl : m.locks.controller = false) (owner : ProcessId) :
    m.lineCall (.unhook owner) =
      .done (m.dropHooks owner) (.ok (m.kernel.devices.vectors.hooksOf owner).length) := by
  rw [lineCall]
  refine withController_eq hl (m.locks_dropHooks owner) ?_
  unfold dropHooks unhook
  simp only
  split <;> rfl

/-- A call on a line that is not there changes nothing. -/
theorem lineCall_of_refused (hl : m.locks.controller = false) (hc : c.line? = some line)
    (hline : ¬ line < m.kernel.devices.vectors.lines) :
    m.lineCall c = .done m (.error (.invalid line)) := by
  cases c with
  | set l on =>
    cases hc
    simp only [lineCall, setLine_of_free hl, VectorTable.setEnabled, if_neg hline]
    rfl
  | hook l owner =>
    cases hc
    simp only [lineCall, hookLine_of_free hl, VectorTable.hook, if_neg hline]
    rfl
  | unhook owner => cases hc

/-- A call on a line of the table succeeds, and takes no hook away. -/
theorem lineCall_of_line (hl : m.locks.controller = false) (hc : c.line? = some line)
    (hline : line < m.kernel.devices.vectors.lines) :
    ∃ n, m.lineCall c = .done n (.ok 0) ∧ n.locks = m.locks ∧
      m.kernel.devices.vectors.Takes c n.kernel.devices.vectors := by
  cases c with
  | set l on =>
    cases hc
    obtain ⟨t, ht⟩ := VectorTable.exists_setEnabled hline on
    refine ⟨(m.setVectors t).note (.lineSet line on), ?_, rfl, VectorTable.takes_setEnabled ht⟩
    simp only [lineCall, setLine_of_free hl, ht]
    rfl
  | hook l owner =>
    cases hc
    obtain ⟨t, ht⟩ := VectorTable.exists_hook hline owner
    refine ⟨(m.setVectors t).note (.hooked line owner), ?_, rfl, VectorTable.takes_hook ht⟩
    simp only [lineCall, hookLine_of_free hl, ht]
    rfl
  | unhook owner => cases hc

/-- Each call enters the record, and the next one finds the lock free. -/
theorem records_lineCall {past : List LineCall} (hl : m.locks.controller = false)
    (h : m.kernel.devices.vectors.Records past) (c : LineCall) :
    ∃ n r, m.lineCall c = .done n r ∧ n.locks.controller = false ∧
      n.kernel.devices.vectors.lines = m.kernel.devices.vectors.lines ∧
      n.kernel.devices.vectors.Records (past ++ [c]) := by
  cases hc : c.line? with
  | none =>
    cases c with
    | unhook owner =>
      have htakes : m.kernel.devices.vectors.Takes (.unhook owner)
          (m.dropHooks owner).kernel.devices.vectors := by
        rw [vectors_dropHooks]
        exact VectorTable.takes_unhook _ owner
      refine ⟨_, _, lineCall_unhook hl owner, ?_, htakes.lines, h.take htakes rfl⟩
      rw [locks_dropHooks, hl]
    | set line on => cases hc
    | hook line owner => cases hc
  | some line =>
    by_cases hline : line < m.kernel.devices.vectors.lines
    · obtain ⟨n, hn, hlocks, htakes⟩ := lineCall_of_line hl hc hline
      refine ⟨n, _, hn, by rw [hlocks, hl], htakes.lines, h.take htakes ?_⟩
      rw [hc]
      exact decide_eq_true hline
    · exact ⟨m, _, lineCall_of_refused hl hc hline, hl, rfl, h.refuse hc hline⟩

theorem records_lineCalls (calls : List LineCall) :
    ∀ {m : Machine} {past : List LineCall}, m.locks.controller = false →
      m.kernel.devices.vectors.Records past →
      ∃ n, m.lineCalls calls = .done n () ∧ n.locks.controller = false ∧
        n.kernel.devices.vectors.lines = m.kernel.devices.vectors.lines ∧
        n.kernel.devices.vectors.Records (past ++ calls) := by
  induction calls with
  | nil =>
    intro m past hl h
    rw [List.append_nil]
    exact ⟨m, rfl, hl, rfl, h⟩
  | cons c rest ih =>
    intro m past hl h
    obtain ⟨w, r, hw, hwl, hlines, hrecords⟩ := records_lineCall hl h c
    obtain ⟨n, hn, hnl, hlines', hrecords'⟩ := ih hwl hrecords
    refine ⟨n, ?_, hnl, hlines'.trans hlines, ?_⟩
    · rw [lineCalls, hw]
      exact hn
    · rwa [List.append_cons]

/-! ### Traps -/

/-- Hooks that announce a trap one after the other change the inbox, and tell of that. -/
theorem runHooks_eq (frame : Registers) (hooks : List Hook) :
    ∀ m : Machine, m.runHooks frame hooks = (m.setDevices { m.kernel.devices with
      inbox := Inbox.announceAll frame m.kernel.devices.inbox hooks }).report
        (Inbox.announceAllNotes frame m.kernel.devices.inbox hooks) := by
  induction hooks with
  | nil => exact fun _ => rfl
  | cons h rest ih =>
    intro m
    have hfirst : m.runHooks frame (h :: rest) = (m.announce frame h.owner).runHooks frame rest :=
      rfl
    rw [hfirst, ih, Inbox.announceAllNotes]
    simp [announce, report, setDevices, setKernel, Inbox.announceAll]

/-- A trap runs the hooks of its line, and nothing else. -/
theorem dispatch_of_free (hl : m.locks.controller = false) (frame : Registers) :
    m.dispatch frame = .done (m.runHooks frame (m.kernel.devices.vectors.triggered frame))
      (m.kernel.devices.vectors.triggered frame).length := by
  refine withController_eq hl ?_ ?_
  · rw [runHooks_eq]
    rfl
  · rw [runHooks_eq]
    rfl

/-- **The vector table agrees with the calls made on it.** Whatever calls were made on a table that
had just been built, the hooks on each line are the accepted registrations on it whose owner's hooks
have not been taken away since, in the order of the registrations and each as often as it was made;
and a line is enabled if the last accepted call that set it enabled it, which has nothing to do with
hooks. Whichever call comes next, it changes nothing and names its line if there is no such line,
and succeeds otherwise; where it takes hooks away it tells how many, all lines together. A trap
through a line runs the hooks on that line one after the other, each once and in that order, tells
how many, and leaves the table as it is. -/
theorem line_history (hl : m.locks.controller = false) {lines : Word}
    (hnew : m.kernel.devices.vectors = .new lines) (calls : List LineCall) :
    ∃ n, m.lineCalls calls = .done n () ∧
      (∀ line, n.kernel.devices.vectors.hooksOn line = standing line (accepted lines calls)) ∧
      (∀ line, n.kernel.devices.vectors.isEnabled line =
        lastSetting line (accepted lines calls)) ∧
      (∀ c line, c.line? = some line → ¬ line < lines →
        n.lineCall c = .done n (.error (.invalid line))) ∧
      (∀ c line, c.line? = some line → line < lines → ∃ o, n.lineCall c = .done o (.ok 0)) ∧
      (∀ owner, ∃ o k, n.lineCall (.unhook owner) = .done o (.ok k) ∧
        (∀ line, o.kernel.devices.vectors.hooksOn line =
          (n.kernel.devices.vectors.hooksOn line).filter fun h => h.owner != owner) ∧
        k = ∑ i ∈ Finset.range lines.toNat,
          ((n.kernel.devices.vectors.hooksOn (.ofNat i)).length -
            (o.kernel.devices.vectors.hooksOn (.ofNat i)).length)) ∧
      ∀ frame number, frame.line? = some number →
        ∃ o, n.dispatch frame =
            .done o (n.kernel.devices.vectors.hooksOn number.toUInt64).length ∧
          o = n.runHooks frame (n.kernel.devices.vectors.hooksOn number.toUInt64) ∧
          o.kernel.devices.vectors = n.kernel.devices.vectors := by
  have hstart : m.kernel.devices.vectors.Records [] := hnew ▸ VectorTable.records_new lines
  obtain ⟨n, hn, hnl, hsame, hrecords⟩ := records_lineCalls calls hl hstart
  have hlines : n.kernel.devices.vectors.lines = lines := by rw [hsame, hnew]; rfl
  refine ⟨n, hn, ?_, ?_, ?_, ?_, ?_, ?_⟩
  · exact fun line => hlines ▸ hrecords.hooksOn line
  · exact fun line => hlines ▸ hrecords.isEnabled line
  · exact fun c line hc hline => lineCall_of_refused hnl hc (hlines ▸ hline)
  · intro c line hc hline
    obtain ⟨o, ho, _⟩ := lineCall_of_line hnl hc (hlines ▸ hline)
    exact ⟨o, ho⟩
  · intro owner
    refine ⟨_, _, lineCall_unhook hnl owner, ?_⟩
    rw [vectors_dropHooks, ← hlines]
    exact ⟨VectorTable.hooksOn_unhook _ owner, VectorTable.length_hooksOf hrecords.within owner⟩
  · intro frame number hnumber
    have htriggered : n.kernel.devices.vectors.triggered frame =
        n.kernel.devices.vectors.hooksOn number.toUInt64 := by
      unfold VectorTable.triggered
      rw [hnumber]
    refine ⟨_, ?_, rfl, ?_⟩
    · rw [← htriggered]
      exact dispatch_of_free hnl frame
    · rw [runHooks_eq]
      rfl

/-- Two processes share a line, one of them with two hooks, and the other one's hooks go. -/
def sharedLine : List LineCall :=
  [.hook 1 2, .hook 2 1, .hook 2 2, .set 1 true, .hook 2 2, .hook 256 2, .unhook 1]

theorem line_history_shared : ∃ m n o p, trial [] = .done m () ∧
    m.lineCalls sharedLine = .done n () ∧
    n.kernel.devices.vectors.hooksOn 2 = [⟨2, 2⟩, ⟨2, 2⟩] ∧
    n.kernel.devices.vectors.isEnabled 1 = true ∧
    n.lineCall (.hook 256 2) = .done n (.error (.invalid 256)) ∧
    n.lineCall (.unhook 2) = .done o (.ok 3) ∧ n.dispatch (.ofVector 34) = .done p 2 := by
  obtain ⟨m, hm, hcheck⟩ := Outcome.exists_of_endsIn (trial [])
    (fun m => decide (m.locks.controller = false ∧ m.kernel.devices.vectors = .new 256))
    (by decide +kernel)
  obtain ⟨hl, hnew⟩ := of_decide_eq_true hcheck
  obtain ⟨n, hn, hhooks, henabled, hrefused, _, hunhooked, htraps⟩ := line_history hl hnew sharedLine
  obtain ⟨o, k, ho, hleft, hk⟩ := hunhooked 2
  have hthree : k = 3 := by
    rw [hk]
    simp only [hleft, hhooks]
    decide +kernel
  have htwo : n.kernel.devices.vectors.hooksOn 2 = [⟨2, 2⟩, ⟨2, 2⟩] := by
    rw [hhooks]
    decide +kernel
  have hnumber : (Registers.ofVector 34).line? = some 2 := rfl
  obtain ⟨p, hp, _⟩ := htraps (.ofVector 34) 2 hnumber
  have hline : UInt32.toUInt64 2 = 2 := rfl
  rw [hline, htwo] at hp
  refine ⟨m, n, o, p, hm, hn, htwo, ?_, hrefused _ 256 rfl (by decide), hthree ▸ ho, hp⟩
  rw [henabled]
  decide +kernel

end Machine
end Nucleus
