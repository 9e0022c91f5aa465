import Nucleus.Proofs.Binding
import Nucleus.Proofs.Moved

/-!
# Nucleus.Proofs.Refusal

Requests that are answered with an error. Which ones they are, and with which error, can be read off
the kernel before anything is done (`Kernel.refusal?`), and such a request does nothing: but for the
log the machine is afterwards what it was before, and the caller finds the error in its registers.

* `Kernel.objection?`: what speaks against an operation on a target that exists.
* `perform_of_objection`, `perform_ne_refused`: it is refused exactly for that, and untouched.
* `Machine.Refuses`, `refuses_of_objection`: a request that is refused for what speaks against its
  operation.
* `refused_iff`: which requests are refused, and what for.
-/

namespace Nucleus

/-- What speaks against touching a buffer of so many words. -/
def bufferObjection? (buffer words : Word) : Option CallError :=
  match checkBuffer buffer words with
  | .error e => some e.toCallError
  | .ok () => none

theorem bufferObjection?_eq_some {buffer words : Word} {e : CallError}
    (h : bufferObjection? buffer words = some e) :
    ∃ err, checkBuffer buffer words = .error err ∧ err.toCallError = e := by
  unfold bufferObjection? at h
  split at h
  · rename_i err herr
    cases h
    exact ⟨err, herr, rfl⟩
  · cases h

theorem bufferObjection?_eq_none {buffer words : Word} (h : bufferObjection? buffer words = none) :
    checkBuffer buffer words = .ok () := by
  unfold bufferObjection? at h
  split at h
  · cases h
  · assumption

/-- The lines that a refused request leaves in the log. -/
def Request.refusalNotes (q : Request) (caller : ProcessId) (e : CallError) : List Note :=
  match OperationCode.ofWord? q.operation with
  | none => [.unknownOperation caller q.operation]
  | some code => [.requested caller code q.target q.argument, .refused caller code e]

namespace Kernel

/-- What speaks against one more process: there is no identifier for it, no stack or no frame. -/
def spawnObjection? (k : Kernel) : Option CallError :=
  match k.nextId? with
  | none => some .outOfMemory
  | some id =>
    match AddressSpace.allocate k.frames k.config.stackMap id with
    | .error e => some e.toCallError
    | .ok _ => none

theorem spawnObjection?_eq_some {k : Kernel} {e : CallError} (h : k.spawnObjection? = some e)
    (entry : VirtAddr) (privileged : Bool) :
    ∃ err, k.create entry k.config.stackMap privileged = .error err ∧ err.toCallError = e := by
  unfold create
  cases hid : k.nextId? with
  | none =>
    simp only [spawnObjection?, hid] at h
    cases h
    exact ⟨_, rfl, rfl⟩
  | some id =>
    simp only [spawnObjection?, hid] at h ⊢
    cases hspace : AddressSpace.allocate k.frames k.config.stackMap id with
    | error err =>
      simp only [hspace] at h
      cases h
      exact ⟨err, rfl, rfl⟩
    | ok r =>
      simp only [hspace] at h
      cases h

theorem spawnObjection?_eq_none {k : Kernel} (h : k.spawnObjection? = none) (entry : VirtAddr)
    (privileged : Bool) : ∃ p k', k.create entry k.config.stackMap privileged = .ok (p, k') := by
  unfold create
  cases hid : k.nextId? with
  | none =>
    simp only [spawnObjection?, hid] at h
    cases h
  | some id =>
    simp only [spawnObjection?, hid] at h ⊢
    cases hspace : AddressSpace.allocate k.frames k.config.stackMap id with
    | error err =>
      simp only [hspace] at h
      cases h
    | ok r => exact ⟨_, _, rfl⟩

def lineObjection? (k : Kernel) (line : Word) : Option CallError :=
  if line < k.devices.vectors.lines then none else some .invalidArgument

/-- There has to be a clock where a deadline is named. -/
def clockObjection? (k : Kernel) : Option CallError :=
  match k.now? with
  | none => some .notFound
  | some _ => none

theorem clockObjection?_eq_some {k : Kernel} {e : CallError} (h : k.clockObjection? = some e) :
    k.now? = none ∧ e = .notFound := by
  unfold clockObjection? at h
  split at h
  · cases h
    exact ⟨by assumption, rfl⟩
  · cases h

theorem clockObjection?_eq_none {k : Kernel} (h : k.clockObjection? = none) :
    ∃ now, k.now? = some now := by
  unfold clockObjection? at h
  split at h
  · cases h
  · exact ⟨_, by assumption⟩

/-- What speaks against an operation on a target that exists. -/
def objection? (k : Kernel) (caller target : ProcessId) : Operation → Option CallError
  | .spawn _ => k.spawnObjection?
  | .watchLine line => k.lineObjection? line
  | .enableLine line => k.lineObjection? line
  | .disableLine line => k.lineObjection? line
  | .describeProcess buffer => bufferObjection? buffer 6
  | .waitProcess => if caller = target then some .invalidArgument else none
  | .readClock buffer => k.clockObjection?.or (bufferObjection? buffer 2)
  | .waitTimer _ => k.clockObjection?
  | .enterSleep (some _) => k.clockObjection?
  | _ => none

/-- The request is about a process that does not exist. -/
def lacksTarget (k : Kernel) (code : OperationCode) (target : Word) : Bool :=
  code.needsTarget && target != ProcessId.nobody && (k.processes.get? target).isNone

/-- The process that a request is about. -/
def meantBy (caller : ProcessId) (code : OperationCode) (target : Word) : ProcessId :=
  if code.needsTarget && target != ProcessId.nobody then target else caller

/-- What speaks against a request: its operation is unknown; else its target does not exist; else
its argument cannot be read; else the operation cannot be done. -/
def refusal? (k : Kernel) (caller : ProcessId) (q : Request) : Option CallError :=
  match OperationCode.ofWord? q.operation with
  | none => some .invalidArgument
  | some code =>
    if k.lacksTarget code q.target then
      some .notFound
    else
      match Operation.decode code q.argument k.memory with
      | .error e => some e
      | .ok op => k.objection? caller (meantBy caller code q.target) op

/-- An unknown operation comes first, then a missing target, then the rest. -/
theorem reason_of_refusal {k : Kernel} {caller : ProcessId} {q : Request} {e : CallError}
    (h : k.refusal? caller q = some e) :
    (OperationCode.ofWord? q.operation = none → e = .invalidArgument) ∧
    ∀ code, OperationCode.ofWord? q.operation = some code →
      (k.lacksTarget code q.target = true → e = .notFound) ∧
      (k.lacksTarget code q.target = false →
        Operation.decode code q.argument k.memory = .error e ∨
        ∃ op, Operation.decode code q.argument k.memory = .ok op ∧
          k.objection? caller (meantBy caller code q.target) op = some e) := by
  unfold refusal? at h
  cases hcode : OperationCode.ofWord? q.operation with
  | none =>
    rw [hcode] at h
    cases h
    refine ⟨fun _ => rfl, fun code hknown => ?_⟩
    cases hknown
  | some code =>
    rw [hcode] at h
    refine ⟨by rintro ⟨⟩, fun code' hknown => ?_⟩
    cases hknown
    simp only at h
    split at h
    · rename_i hlacks
      cases h
      exact ⟨fun _ => rfl, fun hexists => absurd hlacks (ne_true_of_eq_false hexists)⟩
    · rename_i hexists
      refine ⟨fun hlacks => absurd hlacks hexists, fun _ => ?_⟩
      split at h
      · rename_i herr
        cases h
        exact .inl herr
      · rename_i op hop
        exact .inr ⟨op, hop, h⟩

end Kernel

namespace Machine

variable {m n : Machine} {caller target : ProcessId} {op : Operation} {e : CallError}

theorem writeOut_of_objection {buffer : Word} {words : List Word}
    (h : bufferObjection? buffer (.ofNat words.length) = some e) :
    m.writeOut buffer words = m.fail e := by
  obtain ⟨err, herr, rfl⟩ := bufferObjection?_eq_some h
  unfold writeOut UserMemory.write
  rw [herr]

theorem writeOut_ne_refused {buffer : Word} {words : List Word}
    (h : bufferObjection? buffer (.ofNat words.length) = none) :
    m.writeOut buffer words ≠ .done n (.ready (.error e)) := by
  unfold writeOut UserMemory.write
  rw [bufferObjection?_eq_none h]
  intro hn
  cases hn

theorem succeed_after_ne {α : Type} (o : Outcome α) :
    (o.andThen fun m _ => m.succeed) ≠ .done n (.ready (.error e)) := by
  intro h
  obtain ⟨w, a, _, hn⟩ := Outcome.andThen_eq_done_iff.1 h
  cases hn

section Line

variable {line : Word} {body : Machine → Machine × Except LineError Unit}

theorem line_of_objection (hl : m.locks.controller = false)
    (hbody : ∀ w : Machine, ¬ line < w.kernel.devices.vectors.lines →
      body w = (w, .error (.invalid line)))
    (h : m.kernel.lineObjection? line = some e) :
    (m.withController body).andThen replyOfLine = m.fail e := by
  unfold Kernel.lineObjection? at h
  split at h
  · cases h
  · rename_i hline
    cases h
    rw [withController_eq hl rfl (hbody _ hline)]
    rfl

theorem line_ne_refused
    (hbody : ∀ w : Machine, line < w.kernel.devices.vectors.lines → ∃ v, body w = (v, .ok ()))
    (h : m.kernel.lineObjection? line = none) :
    (m.withController body).andThen replyOfLine ≠ .done n (.ready (.error e)) := by
  unfold Kernel.lineObjection? at h
  split at h
  · rename_i hline
    intro hn
    obtain ⟨w, r, hw, hn⟩ := Outcome.andThen_eq_done_iff.1 hn
    obtain ⟨v, hv⟩ := hbody { m with locks := { m.locks with controller := true } } hline
    unfold withController at hw
    rw [hv] at hw
    split at hw
    · cases hw
    · cases hw
      cases hn
  · cases h

end Line

/-- An operation is refused where something speaks against it, before anything is done. -/
theorem perform_of_objection (hl : m.locks.controller = false)
    (ht : (m.kernel.processes.get? target).isSome)
    (h : m.kernel.objection? caller target op = some e) :
    m.perform caller target op = m.fail e := by
  cases op with
  | spawn entry =>
    obtain ⟨err, herr, rfl⟩ := Kernel.spawnObjection?_eq_some h entry false
    simp only [perform, spawn, create, herr]
  | watchLine line =>
    refine line_of_objection hl (fun w hline => ?_) h
    simp only [VectorTable.hook, if_neg hline]
  | enableLine line =>
    refine line_of_objection hl (fun w hline => ?_) h
    simp only [VectorTable.setEnabled, if_neg hline]
  | disableLine line =>
    refine line_of_objection hl (fun w hline => ?_) h
    simp only [VectorTable.setEnabled, if_neg hline]
  | describeProcess buffer =>
    obtain ⟨p, hp⟩ := Option.isSome_iff_exists.1 ht
    simp only [perform, describeProcess, hp]
    exact writeOut_of_objection h
  | waitProcess =>
    have h : (if caller = target then some CallError.invalidArgument else none) = some e := h
    split at h
    · rename_i hself
      cases h
      simp only [perform, waitProcess, if_pos hself]
      rfl
    · cases h
  | readClock buffer =>
    rcases Option.or_eq_some_iff.1 h with h | ⟨hclock, hbuffer⟩
    · obtain ⟨hnow, rfl⟩ := Kernel.clockObjection?_eq_some h
      simp only [perform, readClock, hnow]
    · obtain ⟨now, hnow⟩ := Kernel.clockObjection?_eq_none hclock
      simp only [perform, readClock, hnow]
      exact writeOut_of_objection hbuffer
  | waitTimer deadline =>
    obtain ⟨hnow, rfl⟩ := Kernel.clockObjection?_eq_some h
    simp only [perform, waitTimer, hnow]
  | enterSleep deadline =>
    cases deadline with
    | none => cases h
    | some deadline =>
      obtain ⟨hnow, rfl⟩ := Kernel.clockObjection?_eq_some h
      simp only [perform, enterSleep, hnow]
  | _ => cases h

theorem sleep_ne_refused {timer : SleepTimer} : m.sleep timer ≠ .done n (.ready (.error e)) := by
  intro hn
  unfold sleep at hn
  obtain ⟨p, _, hn⟩ := withCurrent_done hn
  simp only at hn
  split at hn
  · cases hn
  · exact succeed_after_ne _ hn

/-- Nothing else is refused. -/
theorem perform_ne_refused (ht : (m.kernel.processes.get? target).isSome)
    (h : m.kernel.objection? caller target op = none) :
    m.perform caller target op ≠ .done n (.ready (.error e)) := by
  obtain ⟨q, hq⟩ := Option.isSome_iff_exists.1 ht
  cases op with
  | spawn entry =>
    obtain ⟨p, k, hk⟩ := Kernel.spawnObjection?_eq_none h entry false
    simp only [perform, spawn, create, hk]
    intro hn
    cases hn
  | kill status =>
    simp only [perform, kill, remove, Kernel.remove, hq]
    intro hn
    obtain ⟨w, u, _, hn⟩ := Outcome.andThen_eq_done_iff.1 hn
    exact succeed_after_ne _ hn
  | getId =>
    intro hn
    cases hn
  | getParent =>
    intro hn
    obtain ⟨p, _, hn⟩ := withCurrent_done hn
    cases hn
  | watchLine line =>
    refine line_ne_refused (fun w hline => ?_) h
    simp only [VectorTable.hook, if_pos hline]
    exact ⟨_, rfl⟩
  | enableLine line =>
    refine line_ne_refused (fun w hline => ?_) h
    simp only [VectorTable.setEnabled, if_pos hline]
    exact ⟨_, rfl⟩
  | disableLine line =>
    refine line_ne_refused (fun w hline => ?_) h
    simp only [VectorTable.setEnabled, if_pos hline]
    exact ⟨_, rfl⟩
  | describeProcess buffer =>
    simp only [perform, describeProcess, hq]
    exact writeOut_ne_refused h
  | waitProcess =>
    have h : (if caller = target then some CallError.invalidArgument else none) = none := h
    split at h
    · cases h
    · rename_i hother
      simp only [perform, waitProcess, if_neg hother]
      intro hn
      obtain ⟨p, _, hn⟩ := withCurrent_done hn
      obtain ⟨w, id, _, hn⟩ := Outcome.andThen_eq_done_iff.1 hn
      cases hn
  | readClock buffer =>
    obtain ⟨hclock, hbuffer⟩ := Option.or_eq_none_iff.1 h
    obtain ⟨now, hnow⟩ := Kernel.clockObjection?_eq_none hclock
    simp only [perform, readClock, hnow]
    exact writeOut_ne_refused hbuffer
  | waitTimer deadline =>
    obtain ⟨now, hnow⟩ := Kernel.clockObjection?_eq_none h
    simp only [perform, waitTimer, hnow]
    intro hn
    split at hn
    · cases hn
    · obtain ⟨p, _, hn⟩ := withCurrent_done hn
      exact succeed_after_ne _ hn
  | enterSleep deadline =>
    cases deadline with
    | none => exact sleep_ne_refused
    | some deadline =>
      obtain ⟨now, hnow⟩ := Kernel.clockObjection?_eq_none h
      simp only [perform, enterSleep, hnow]
      intro hn
      split at hn
      · cases hn
      · exact sleep_ne_refused hn
  | yieldCpu => exact succeed_after_ne _
  | resume =>
    simp only [perform, resume, hq]
    intro hn
    cases hn
  | setStack stack =>
    simp only [perform, setStack]
    intro hn
    split at hn <;> cases hn

/-! ### Requests -/

section Understood

variable {code : OperationCode} {q : Request}

theorem targetOf_eq (caller : ProcessId) (code : OperationCode) (target : Word) :
    m.targetOf caller code target =
      if m.kernel.lacksTarget code target then .error .notFound
      else .ok (Kernel.meantBy caller code target) := by
  unfold targetOf Kernel.resolveTarget Kernel.lacksTarget Kernel.meantBy
  by_cases hneeds : code.needsTarget = true
  · by_cases hself : target = ProcessId.nobody
    · simp [hneeds, hself]
    · cases hp : m.kernel.processes.get? target <;> simp [hneeds, hself]
  · simp [hneeds]

theorem lacksTarget_of_resolveTarget {k : Kernel} {w : Word}
    (h : k.resolveTarget caller w = .ok target) : k.lacksTarget code w = false := by
  unfold Kernel.lacksTarget
  have hmeans := resolveTarget_eq_ok_iff.1 h
  split at hmeans
  · rename_i hself
    simp [hself]
  · simp [Option.isNone_eq_false_iff.2 hmeans.2]

theorem resolveTarget_eq_error {k : Kernel} {w : Word} (h : k.resolveTarget caller w = .error e) :
    e = .notFound ∧
      ∀ code : OperationCode, code.needsTarget = true → k.lacksTarget code w = true := by
  unfold Kernel.resolveTarget at h
  split at h
  · cases h
  · rename_i hnamed
    split at h
    · rename_i hp
      cases h
      exact ⟨rfl, fun code hneeds => by simp [Kernel.lacksTarget, hneeds, hnamed, hp]⟩
    · cases h

theorem understand_of_lacksTarget (h : m.kernel.lacksTarget code q.target = true) :
    m.understand caller code q = .error .notFound := by
  unfold understand
  rw [targetOf_eq, if_pos h]

theorem understand_of_unreadable (h : m.kernel.lacksTarget code q.target = false)
    (he : Operation.decode code q.argument m.kernel.memory = .error e) :
    m.understand caller code q = .error e := by
  unfold understand
  rw [targetOf_eq, if_neg (ne_true_of_eq_false h)]
  simp only [he]

theorem understand_of_readable (h : m.kernel.lacksTarget code q.target = false)
    (hop : Operation.decode code q.argument m.kernel.memory = .ok op) :
    m.understand caller code q = .ok (Kernel.meantBy caller code q.target, op) := by
  refine understand_eq_ok_iff.2 ⟨?_, hop⟩
  rw [targetOf_eq, if_neg (ne_true_of_eq_false h)]

theorem understand_of_resolveTarget (hneeds : code.needsTarget = true)
    (htarget : m.kernel.resolveTarget caller q.target = .ok target)
    (hop : Operation.decode code q.argument m.kernel.memory = .ok op) :
    m.understand caller code q = .ok (target, op) := by
  refine understand_eq_ok_iff.2 ⟨?_, hop⟩
  rw [targetOf, if_pos hneeds]
  exact htarget

theorem understand_eq_ok (h : m.understand caller code q = .ok (target, op)) :
    m.kernel.lacksTarget code q.target = false ∧
      target = Kernel.meantBy caller code q.target ∧
        Operation.decode code q.argument m.kernel.memory = .ok op := by
  obtain ⟨htarget, hop⟩ := understand_eq_ok_iff.1 h
  rw [targetOf_eq] at htarget
  split at htarget
  · cases htarget
  · rename_i hexists
    cases htarget
    exact ⟨eq_false_of_ne_true hexists, rfl, hop⟩

end Understood

theorem isSome_meantBy {code : OperationCode} {target : Word}
    (hc : (m.kernel.processes.get? caller).isSome)
    (h : m.kernel.lacksTarget code target = false) :
    (m.kernel.processes.get? (Kernel.meantBy caller code target)).isSome := by
  unfold Kernel.meantBy
  unfold Kernel.lacksTarget at h
  split
  · rename_i hnamed
    rw [hnamed, Bool.true_and] at h
    simpa using h
  · exact hc

/-- A request against which something speaks does no more than tell so. -/
theorem serve_of_refusal {p : Process} {q : Request} (hl : m.locks.controller = false)
    (hp : m.kernel.currentProcess? = some p) (h : m.kernel.refusal? p.id q = some e) :
    m.serve q = .done (m.report (q.refusalNotes p.id e)) (.ready (.error e)) := by
  obtain ⟨hunknown, hknown⟩ := Kernel.reason_of_refusal h
  unfold serve withCurrent Request.refusalNotes
  simp only [hp]
  cases hcode : OperationCode.ofWord? q.operation with
  | none =>
    rw [hunknown hcode]
    rfl
  | some code =>
    let asked := m.note (.requested p.id code q.target q.argument)
    obtain ⟨hmissing, hrest⟩ := hknown code hcode
    simp only
    cases hlacks : m.kernel.lacksTarget code q.target with
    | true =>
      rw [hmissing hlacks, understand_of_lacksTarget (m := asked) hlacks]
      rfl
    | false =>
      rcases hrest hlacks with herr | ⟨op, hop, hobjection⟩
      · rw [understand_of_unreadable (m := asked) hlacks herr]
        rfl
      · have ht := isSome_meantBy (isSome_of_currentProcess? hp) hlacks
        rw [understand_of_readable (m := asked) hlacks hop]
        simp only
        rw [perform_of_objection (m := asked) hl ht hobjection]
        rfl

/-- No other request is refused. -/
theorem serve_ne_refused {p : Process} {q : Request} (hp : m.kernel.currentProcess? = some p)
    (h : m.kernel.refusal? p.id q = none) : m.serve q ≠ .done n (.ready (.error e)) := by
  unfold Kernel.refusal? at h
  intro hn
  unfold serve at hn
  obtain ⟨p', hp', hn⟩ := withCurrent_done hn
  rw [hp] at hp'
  cases hp'
  split at h
  · cases h
  · rename_i code hcode
    rw [hcode] at hn
    obtain ⟨w, c, hw, hn⟩ := Outcome.andThen_eq_done_iff.1 hn
    cases hn
    let asked := m.note (.requested p.id code q.target q.argument)
    split at h
    · cases h
    · rename_i hlacks
      have hexists := eq_false_of_ne_true hlacks
      split at h
      · cases h
      · rename_i op hop
        rw [understand_of_readable (m := asked) hexists hop] at hw
        have ht := isSome_meantBy (isSome_of_currentProcess? hp) hexists
        exact perform_ne_refused (m := asked) ht h hw

/-- The caller of a request that is refused finds the error in its registers. -/
theorem request_of_refusal {p : Process} (hl : m.locks.controller = false)
    (hp : m.kernel.currentProcess? = some p)
    (h : m.kernel.refusal? p.id m.frame.request = some e) :
    m.request = .done ({ m with frame := m.frame.withResult e.code }.report
      (m.frame.request.refusalNotes p.id e)) () := by
  unfold request withCurrent
  rw [hp]
  simp only
  rw [serve_of_refusal hl hp h]
  simp only [Outcome.andThen_done, answer]
  rw [if_pos (by exact (currentProcess?_eq_some hp).1)]
  rfl

/-- The request is answered with an error, and but for the log nothing is changed. -/
def Refuses (m : Machine) (caller : ProcessId) (q : Request) (e : CallError) : Prop :=
  m.withKernel (fun m => m.serve q) =
    .done (m.report (q.refusalNotes caller e)) (.ready (.error e))

theorem withKernel_serve_of_refusal {q : Request} (hm : Reachable m)
    (hc : m.kernel.current = some caller) (h : m.kernel.refusal? caller q = some e) :
    m.withKernel (fun m => m.serve q) =
      .done (m.report (q.refusalNotes caller e)) (.ready (.error e)) := by
  obtain ⟨p, hp, rfl, _⟩ := (bound_of_reachable hm).currentProcess? hc
  have hl := locks_of_reachable hm
  exact withKernel_of_locks hl hl fun locks hfree =>
    serve_of_refusal (m := { m with locks }) hfree hp h

/-- A request that lacks its target is refused for that. -/
theorem refuses_of_resolveTarget {code : OperationCode} {q : Request} (hm : Reachable m)
    (hc : m.kernel.current = some caller)
    (hcode : OperationCode.ofWord? q.operation = some code) (hneeds : code.needsTarget = true)
    (h : m.kernel.resolveTarget caller q.target = .error e) : m.Refuses caller q e := by
  obtain ⟨rfl, hlacks⟩ := resolveTarget_eq_error h
  refine withKernel_serve_of_refusal hm hc ?_
  unfold Kernel.refusal?
  simp only [hcode, hlacks code hneeds]
  rfl

/-- A request that is understood is refused for what speaks against its operation. -/
theorem refuses_of_objection {p : Process} {code : OperationCode} {q : Request}
    (hm : Reachable m) (hp : m.kernel.currentProcess? = some p)
    (hcode : OperationCode.ofWord? q.operation = some code)
    (hu : m.understand p.id code q = .ok (target, op))
    (h : m.kernel.objection? p.id target op = some e) : m.Refuses p.id q e := by
  obtain ⟨hlacks, rfl, hdecode⟩ := understand_eq_ok hu
  refine withKernel_serve_of_refusal hm (currentProcess?_eq_some hp).1 ?_
  unfold Kernel.refusal?
  simp only [hcode, hlacks, hdecode]
  exact h

/-- What an operation comes to on every machine with the same kernel and frame, the request for it
comes to. -/
theorem withKernel_serve_of_perform {p : Process} {code : OperationCode} {q : Request}
    {c : Completion} {P : Kernel → Registers → Prop} (hm : Reachable m)
    (hp : m.kernel.currentProcess? = some p)
    (hcode : OperationCode.ofWord? q.operation = some code)
    (hu : m.understand p.id code q = .ok (target, op))
    (hop : ∀ w : Machine, w.kernel = m.kernel → w.frame = m.frame →
      ∃ v, w.perform p.id target op = .done v c ∧ P v.kernel v.frame) :
    ∃ n, m.withKernel (fun m => m.serve q) = .done n c ∧ P n.kernel n.frame := by
  obtain ⟨locks, give, hcall⟩ := withKernel_of_free (locks_of_reachable hm) fun m => m.serve q
  obtain ⟨v, hv, hP⟩ :=
    hop (({ m with locks } : Machine).note (.requested p.id code q.target q.argument)) rfl rfl
  let n := v.noteRefusal p.id code c
  refine ⟨{ n with locks := give n.locks }, ?_, ?_⟩
  · rw [hcall, serve_of_understood (m := { m with locks }) hp hcode hu, hv]
    rfl
  · show P n.kernel n.frame
    unfold n noteRefusal
    split <;> exact hP

/-- A request is answered with an error exactly where something speaks against it. It is then as if
it had not been made, but for the log and, where it came in registers, for the error in them. An
unknown operation is refused whatever else is wrong, and a missing target before the argument is
looked at. -/
theorem refused_iff (hm : Reachable m) (q : Request) (e : CallError) :
    (∀ n, m.withKernel (fun m => m.serve q) = .done n (.ready (.error e)) ↔
      ∃ caller, m.kernel.current = some caller ∧ m.kernel.refusal? caller q = some e ∧
        n = m.report (q.refusalNotes caller e)) ∧
    ∀ caller, m.kernel.current = some caller → m.kernel.refusal? caller q = some e →
      (m.frame.request = q →
        m.act .request = .done ({ m with frame := m.frame.withResult e.code }.report
          (q.refusalNotes caller e)) ()) ∧
      (OperationCode.ofWord? q.operation = none → e = .invalidArgument) ∧
      ∀ code, OperationCode.ofWord? q.operation = some code →
        (m.kernel.lacksTarget code q.target = true → e = .notFound) ∧
        (m.kernel.lacksTarget code q.target = false →
          Operation.decode code q.argument m.kernel.memory = .error e ∨
          ∃ op, Operation.decode code q.argument m.kernel.memory = .ok op ∧
            m.kernel.objection? caller (Kernel.meantBy caller code q.target) op = some e) := by
  refine ⟨fun n => ⟨fun h => ?_, ?_⟩, fun caller hc hr => ⟨?_, ?_⟩⟩
  · obtain ⟨l, _, w, hw, _, _⟩ := withKernel_done h
    obtain ⟨p, hp, _⟩ := serve_done hw
    have hc := (currentProcess?_eq_some hp).1
    cases hr : m.kernel.refusal? p.id q with
    | none => exact absurd hw (serve_ne_refused hp hr)
    | some e' =>
      rw [withKernel_serve_of_refusal hm hc hr] at h
      cases h
      exact ⟨p.id, hc, hr, rfl⟩
  · rintro ⟨caller, hc, hr, rfl⟩
    exact withKernel_serve_of_refusal hm hc hr
  · rintro rfl
    obtain ⟨p, hp, rfl, _⟩ := (bound_of_reachable hm).currentProcess? hc
    have hl := locks_of_reachable hm
    exact withKernel_of_locks hl hl fun locks hfree =>
      request_of_refusal (m := { m with locks }) hfree hp hr
  · exact Kernel.reason_of_refusal hr

/-- The first process asks to wake a process that does not exist. -/
theorem refused_iff_resume : ∃ m,
    trial [.boot trialEntry, .compute (asking 7 .resume 0) .zeroed []] = .done m () ∧
    m.withKernel (fun m => m.serve (asking 7 .resume 0).request) =
      .done (m.report [.requested 1 .resume 7 0, .refused 1 .resume .notFound])
        (.ready (.error .notFound)) ∧
    m.act .request = .done ({ m with frame := m.frame.withResult CallError.notFound.code }.report
      [.requested 1 .resume 7 0, .refused 1 .resume .notFound]) () := by
  obtain ⟨m, hm, hcheck⟩ := Outcome.exists_of_endsIn
    (trial [.boot trialEntry, .compute (asking 7 .resume 0) .zeroed []])
    (fun m => m.kernel.current == some 1 && m.frame.request == (asking 7 .resume 0).request &&
      m.kernel.refusal? 1 (asking 7 .resume 0).request == some .notFound)
    (by decide +kernel)
  simp only [Bool.and_eq_true, beq_iff_eq] at hcheck
  obtain ⟨⟨hc, hq⟩, hr⟩ := hcheck
  obtain ⟨hserved, hrest⟩ := refused_iff (.trial hm) (asking 7 .resume 0).request .notFound
  exact ⟨m, hm, (hserved _).2 ⟨1, hc, hr, rfl⟩, (hrest 1 hc hr).1 hq⟩

end Machine
end Nucleus
