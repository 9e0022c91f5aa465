import Nucleus.Proofs.Decision

/-!
# Nucleus.Proofs.Effect

What an operation of the kernel does, if it comes to an end: quiet things, one change to the table
of processes, a scheduling decision, an answer. Every later proof about requests goes by the cases
of `Performed`, and none has to open an operation again.

* `Performed`: the ways in which an operation on a target that exists can end.
* `asked_eq_some_iff`: which words a request for an operation on a target is made of.
* `serve_done`, `request_done`: a request is such an operation between two notes, and its answer.
* `boot_done`, `timerInterrupt_done`, `interrupt_done`, `shutdown_done`: the other ways in.
-/

namespace Nucleus

/-- The operation writes registers of others than its caller. -/
def Operation.writesRegisters : Operation → Bool
  | .kill _ => true
  | .setStack _ => true
  | _ => false

namespace Machine

variable {m n : Machine} {caller target : ProcessId} {op : Operation} {c : Completion}

theorem withCurrent_done {α : Type} {a : α} {next : Process → Outcome α}
    (h : m.withCurrent next = .done n a) :
    ∃ p, m.kernel.currentProcess? = some p ∧ next p = .done n a := by
  unfold withCurrent at h
  split at h
  · cases h
  · rename_i p hp
    exact ⟨p, hp, h⟩

theorem currentProcess?_eq_some {k : Kernel} {p : Process} (h : k.currentProcess? = some p) :
    k.current = some p.id ∧ k.processes.get? p.id = some p := by
  unfold Kernel.currentProcess? at h
  split at h
  · cases h
  · rename_i id hid
    have := Registry.id_of_get? h
    subst this
    exact ⟨hid, h⟩

theorem isSome_of_currentProcess? {k : Kernel} {p : Process} (h : k.currentProcess? = some p) :
    (k.processes.get? p.id).isSome := by
  rw [(currentProcess?_eq_some h).2]
  rfl

/-- How an operation of the process with the CPU comes to its end. -/
inductive Performed (m : Machine) (caller target : ProcessId) :
    Operation → Machine → Completion → Prop where
  /-- It is refused, or it changes nothing that is not quiet. -/
  | quietly {op : Operation} {n : Machine} {r : Reply} :
      op.writesRegisters = false → m.Quiet n → Performed m caller target op n (.ready r)
  | spawned {entry : VirtAddr} {p : Process} {k : Kernel} {n : Machine} :
      m.kernel.create entry m.kernel.config.stackMap false = .ok (p, k) →
      n.kernel = { k with processes := k.processes.modify p.id (Process.setParent caller) } →
      n.frame = m.frame →
      Performed m caller target (.spawn entry) n (.ready (.value p.id))
  | killed {status : Word} {k : Kernel} {w n : Machine} {id : ProcessId} :
      m.kernel.remove target status = .ok k → (m.setKernel k).Quiet w → w.schedule = .done n id →
      Performed m caller target (.kill status) n (.ready (.value 0))
  | waited {n : Machine} {id : ProcessId} :
      caller ≠ target → (m.modifyProcess caller (Process.waitFor target)).schedule = .done n id →
      Performed m caller target .waitProcess n .deferred
  | slept {op : Operation} {f : Process → Process} {hf : ∀ p, (f p).id = p.id} {t : SleepTimer}
      {n : Machine} {id : ProcessId} :
      op.writesRegisters = false →
      (∀ p, m.kernel.processes.get? caller = some p →
        f p = { p with sleepTimer := some t, state := .sleeping }) →
      (m.modifyProcess caller f hf).schedule = .done n id →
      Performed m caller target op n (.ready (.value 0))
  | yielded {n : Machine} {id : ProcessId} :
      m.schedule = .done n id → Performed m caller target .yieldCpu n (.ready (.value 0))
  | stackSet {stack : VirtAddr} {n : Machine} :
      n = { m.modifyProcess target (Process.setUserStack stack) with
        frame := if target = caller then { m.frame with rsp := stack.word } else m.frame } →
      Performed m caller target (.setStack stack) n (.ready (.value 0))

/-! ### One operation after the other -/

theorem spawn_done {entry : VirtAddr} (h : m.spawn caller entry = .done n c) :
    m.Performed caller target (.spawn entry) n c := by
  unfold spawn Machine.create at h
  split at h
  · cases h
    exact .quietly rfl (.refl m)
  · rename_i p w hw
    split at hw
    · cases hw
    · rename_i hk
      cases hw
      cases h
      exact .spawned hk rfl rfl

theorem kill_done {status : Word} (ht : (m.kernel.processes.get? target).isSome)
    (h : m.kill target status = .done n c) : m.Performed caller target (.kill status) n c := by
  unfold kill Machine.remove at h
  split at h
  · rename_i e he
    obtain ⟨p, hp⟩ := Option.isSome_iff_exists.1 ht
    unfold Kernel.remove at he
    rw [hp] at he
    cases he
  · rename_i w hw
    split at hw
    · cases hw
    · rename_i k hk
      cases hw
      obtain ⟨v, u, hv, h'⟩ := Outcome.andThen_eq_done_iff.1 h
      obtain ⟨o, id, ho, hn⟩ := Outcome.andThen_eq_done_iff.1 h'
      cases hn
      have hq : (m.setKernel k).Quiet v :=
        (quiet_report _ _).trans (quiet_withController (fun m => m.quiet_dropHooks target) hv)
      exact .killed hk hq ho

theorem replyOfLine_done {r : Except LineError Unit} (h : m.replyOfLine r = .done n c) :
    ∃ reply, c = .ready reply ∧ n = m := by
  unfold replyOfLine at h
  split at h <;> cases h
  · exact ⟨_, rfl, rfl⟩
  · exact ⟨_, rfl, rfl⟩

theorem writeOut_done {buffer : Word} {words : List Word}
    (h : m.writeOut buffer words = .done n c) : ∃ reply, c = .ready reply ∧ m.Quiet n := by
  unfold writeOut at h
  split at h <;> cases h
  · exact ⟨_, rfl, .refl m⟩
  · exact ⟨_, rfl, m.quiet_setMemory _⟩

theorem describeProcess_done {buffer : Word} (h : m.describeProcess target buffer = .done n c) :
    ∃ reply, c = .ready reply ∧ m.Quiet n := by
  unfold describeProcess at h
  split at h
  · cases h
    exact ⟨_, rfl, .refl m⟩
  · exact writeOut_done h

theorem readClock_done {buffer : Word} (h : m.readClock buffer = .done n c) :
    ∃ reply, c = .ready reply ∧ m.Quiet n := by
  unfold readClock at h
  split at h
  · cases h
    exact ⟨_, rfl, .refl m⟩
  · exact writeOut_done h

theorem resume_done (h : m.resume target = .done n c) : ∃ reply, c = .ready reply ∧ m.Quiet n := by
  unfold resume at h
  split at h <;> cases h
  · exact ⟨_, rfl, .refl m⟩
  · exact ⟨_, rfl, (quiet_modifyProcess _ fun p _ => p.roused_wake).trans (quiet_note _ _)⟩

theorem waitProcess_done {p : Process} (hp : m.kernel.currentProcess? = some p)
    (hc : p.id = caller) (h : m.waitProcess caller target = .done n c) :
    m.Performed caller target .waitProcess n c := by
  unfold waitProcess at h
  split at h
  · cases h
    exact .quietly rfl (.refl m)
  · rename_i hne
    obtain ⟨q, hq, h'⟩ := withCurrent_done h
    rw [hp] at hq
    cases hq
    subst hc
    obtain ⟨o, id, ho, hn⟩ := Outcome.andThen_eq_done_iff.1 h'
    cases hn
    exact .waited hne ho

theorem waitTimer_done {p : Process} {deadline : Instant}
    (hp : m.kernel.currentProcess? = some p) (hc : p.id = caller)
    (h : m.waitTimer deadline = .done n c) :
    m.Performed caller target (.waitTimer deadline) n c := by
  unfold waitTimer at h
  split at h
  · cases h
    exact .quietly rfl (.refl m)
  · split at h
    · cases h
      exact .quietly rfl (.refl m)
    · obtain ⟨q, hq, h'⟩ := withCurrent_done h
      rw [hp] at hq
      cases hq
      subst hc
      obtain ⟨o, id, ho, hn⟩ := Outcome.andThen_eq_done_iff.1 h'
      cases hn
      exact .slept rfl (fun _ _ => rfl) ho

theorem sleep_done {p : Process} {timer : SleepTimer} (hop : op.writesRegisters = false)
    (hp : m.kernel.currentProcess? = some p) (hc : p.id = caller)
    (h : m.sleep timer = .done n c) : m.Performed caller target op n c := by
  unfold sleep at h
  obtain ⟨q, hq, h'⟩ := withCurrent_done h
  rw [hp] at hq
  cases hq
  subst hc
  simp only at h'
  split at h'
  · rename_i hs
    cases h'
    refine .quietly hop ((quiet_modifyProcess _ fun q hq => ?_).trans (quiet_note _ _))
    rw [(currentProcess?_eq_some hp).2] at hq
    cases hq
    exact Process.roused_sleep hs timer
  · rename_i hs
    obtain ⟨o, id, ho, hn⟩ := Outcome.andThen_eq_done_iff.1 h'
    cases hn
    refine .slept (t := timer) hop (fun q hq => ?_) ho
    rw [(currentProcess?_eq_some hp).2] at hq
    cases hq
    unfold Process.sleep
    rw [hs]

theorem enterSleep_done {p : Process} {deadline : Option Instant}
    (hp : m.kernel.currentProcess? = some p) (hc : p.id = caller)
    (h : m.enterSleep deadline = .done n c) :
    m.Performed caller target (.enterSleep deadline) n c := by
  unfold enterSleep at h
  split at h
  · exact sleep_done rfl hp hc h
  · split at h
    · cases h
      exact .quietly rfl (.refl m)
    · split at h
      · cases h
        exact .quietly rfl (.refl m)
      · exact sleep_done rfl hp hc h

theorem setStack_done {stack : VirtAddr} (h : m.setStack caller target stack = .done n c) :
    m.Performed caller target (.setStack stack) n c := by
  unfold setStack at h
  simp only at h
  split at h <;> cases h
  · rename_i he
    exact .stackSet (by rw [if_pos he]; rfl)
  · rename_i he
    exact .stackSet (by rw [if_neg he]; rfl)

theorem perform_done {p : Process} (hp : m.kernel.currentProcess? = some p) (hc : p.id = caller)
    (ht : (m.kernel.processes.get? target).isSome) (h : m.perform caller target op = .done n c) :
    m.Performed caller target op n c := by
  cases op with
  | spawn entry => exact spawn_done h
  | kill status => exact kill_done ht h
  | getId =>
    cases h
    exact .quietly rfl (.refl m)
  | getParent =>
    obtain ⟨q, _, hn⟩ := withCurrent_done h
    cases hn
    exact .quietly rfl (.refl m)
  | watchLine line =>
    obtain ⟨w, r, hw, hn⟩ := Outcome.andThen_eq_done_iff.1 h
    obtain ⟨reply, rfl, rfl⟩ := replyOfLine_done hn
    exact .quietly rfl (quiet_hookLine hw)
  | enableLine line =>
    obtain ⟨w, r, hw, hn⟩ := Outcome.andThen_eq_done_iff.1 h
    obtain ⟨reply, rfl, rfl⟩ := replyOfLine_done hn
    exact .quietly rfl (quiet_setLine hw)
  | disableLine line =>
    obtain ⟨w, r, hw, hn⟩ := Outcome.andThen_eq_done_iff.1 h
    obtain ⟨reply, rfl, rfl⟩ := replyOfLine_done hn
    exact .quietly rfl (quiet_setLine hw)
  | describeProcess buffer =>
    obtain ⟨reply, rfl, hq⟩ := describeProcess_done h
    exact .quietly rfl hq
  | waitProcess => exact waitProcess_done hp hc h
  | readClock buffer =>
    obtain ⟨reply, rfl, hq⟩ := readClock_done h
    exact .quietly rfl hq
  | waitTimer deadline => exact waitTimer_done hp hc h
  | enterSleep deadline => exact enterSleep_done hp hc h
  | yieldCpu =>
    obtain ⟨w, id, hw, hn⟩ := Outcome.andThen_eq_done_iff.1 h
    cases hn
    exact .yielded hw
  | resume =>
    obtain ⟨reply, rfl, hq⟩ := resume_done h
    exact .quietly rfl hq
  | setStack stack => exact setStack_done h

/-! ### What a request comes to -/

/-- The operation that a request of the process with the CPU comes to, and its target; none if the
request is refused before. -/
def asked (m : Machine) (q : Request) : Option (ProcessId × Operation) :=
  match m.kernel.currentProcess?, OperationCode.ofWord? q.operation with
  | some caller, some code =>
    match m.understand caller.id code q with
    | .ok asked => some asked
    | .error _ => none
  | _, _ => none

theorem resolveTarget_eq_ok_iff {k : Kernel} {w : Word} :
    k.resolveTarget caller w = .ok target ↔
      if w = ProcessId.nobody then target = caller
      else target = w ∧ (k.processes.get? w).isSome := by
  unfold Kernel.resolveTarget
  split
  · exact ⟨fun h => (Except.ok.inj h).symm, fun h => congrArg Except.ok h.symm⟩
  · split
    · rename_i hp
      constructor
      · intro h
        cases h
      · rintro ⟨_, hsome⟩
        rw [hp] at hsome
        cases hsome
    · rename_i p hp
      constructor
      · intro h
        cases h
        exact ⟨rfl, by rw [hp]; rfl⟩
      · rintro ⟨rfl, _⟩
        rfl

theorem targetOf_eq_ok_iff {code : OperationCode} {w : Word} :
    m.targetOf caller code w = .ok target ↔
      if code.needsTarget = true ∧ w ≠ ProcessId.nobody
      then target = w ∧ (m.kernel.processes.get? target).isSome
      else target = caller := by
  unfold targetOf
  by_cases hneeds : code.needsTarget = true
  · rw [if_pos hneeds, resolveTarget_eq_ok_iff]
    by_cases hself : w = ProcessId.nobody
    · rw [if_pos hself, if_neg fun h => h.2 hself]
    · rw [if_neg hself, if_pos ⟨hneeds, hself⟩]
      exact and_congr_right fun h => by rw [h]
  · rw [if_neg hneeds, if_neg fun h => hneeds h.1]
    exact ⟨fun h => (Except.ok.inj h).symm, fun h => congrArg Except.ok h.symm⟩

/-- What a request comes to is its target and its operation, both of which can be read. -/
theorem understand_eq_ok_iff {code : OperationCode} {q : Request} :
    m.understand caller code q = .ok (target, op) ↔
      m.targetOf caller code q.target = .ok target ∧
        Operation.decode code q.argument m.kernel.memory = .ok op := by
  unfold understand
  constructor
  · intro h
    split at h
    · cases h
    · rename_i htarget
      split at h
      · cases h
      · rename_i hop
        cases h
        exact ⟨htarget, hop⟩
  · rintro ⟨htarget, hop⟩
    rw [htarget]
    simp only [hop]

/-- What a request is in its own words, if it asks for an operation on a target. -/
structure Asks (m : Machine) (q : Request) (caller target : ProcessId) (op : Operation) : Prop where
  operation : q.operation = op.code.toWord
  /-- Zero stands for the caller, and so does anything where no target is needed. -/
  target : if op.code.needsTarget = true ∧ q.target ≠ ProcessId.nobody
    then target = q.target ∧ (m.kernel.processes.get? target).isSome
    else target = caller
  argument : op.Reads q.argument m.kernel.memory

theorem asked_eq_some {q : Request} (h : m.asked q = some (target, op)) :
    ∃ p code, m.kernel.currentProcess? = some p ∧
      OperationCode.ofWord? q.operation = some code ∧
        m.understand p.id code q = .ok (target, op) := by
  unfold asked at h
  split at h
  · rename_i p code hp hcode
    split at h
    · rename_i hu
      cases h
      exact ⟨p, code, hp, hcode, hu⟩
    · cases h
  · cases h

/-- A request of the process with the CPU comes to an operation on a target exactly if its words
ask for it. -/
theorem asked_eq_some_iff {q : Request} :
    m.asked q = some (target, op) ↔
      ∃ p, m.kernel.currentProcess? = some p ∧ m.Asks q p.id target op := by
  constructor
  · intro h
    obtain ⟨p, code, hp, hcode, hu⟩ := asked_eq_some h
    obtain ⟨htarget, hop⟩ := understand_eq_ok_iff.1 hu
    obtain ⟨rfl, hreads⟩ := Operation.decode_eq_ok_iff.1 hop
    exact ⟨p, hp, OperationCode.ofWord?_eq_some_iff.1 hcode, targetOf_eq_ok_iff.1 htarget, hreads⟩
  · rintro ⟨p, hp, hasks⟩
    have hcode := OperationCode.ofWord?_eq_some_iff.2 hasks.operation
    have htarget : m.targetOf p.id op.code q.target = .ok target :=
      targetOf_eq_ok_iff.2 hasks.target
    have hop : Operation.decode op.code q.argument m.kernel.memory = .ok op :=
      Operation.decode_eq_ok_iff.2 ⟨rfl, hasks.argument⟩
    unfold asked
    rw [hp, hcode]
    simp only [understand_eq_ok_iff.2 ⟨htarget, hop⟩]

theorem isSome_of_resolveTarget {k : Kernel} {w : Word} (hc : (k.processes.get? caller).isSome)
    (h : k.resolveTarget caller w = .ok target) : (k.processes.get? target).isSome := by
  have hmeans := resolveTarget_eq_ok_iff.1 h
  split at hmeans
  · rw [hmeans]
    exact hc
  · rw [hmeans.1]
    exact hmeans.2

theorem isSome_of_understand {code : OperationCode} {q : Request}
    (hc : (m.kernel.processes.get? caller).isSome)
    (h : m.understand caller code q = .ok (target, op)) :
    (m.kernel.processes.get? target).isSome := by
  have hmeans := targetOf_eq_ok_iff.1 (understand_eq_ok_iff.1 h).1
  split at hmeans
  · exact hmeans.2
  · rw [hmeans]
    exact hc

/-! ### Requests -/

theorem quiet_noteRefusal (m : Machine) (id : ProcessId) (code : OperationCode) (c : Completion) :
    m.Quiet (m.noteRefusal id code c) := by
  unfold noteRefusal
  split
  · exact m.quiet_note _
  · exact .refl m

/-- A request is refused at once, or it is an operation on a target that exists, between two
notes. -/
theorem serve_done {q : Request} (h : m.serve q = .done n c) :
    ∃ p, m.kernel.currentProcess? = some p ∧
      ((m.asked q = none ∧ m.Quiet n ∧ ∃ e, c = .ready (.error e)) ∨
        ∃ target op note v, m.asked q = some (target, op) ∧
          (m.kernel.processes.get? target).isSome ∧
          (m.note note).Performed p.id target op v c ∧ v.Quiet n) := by
  unfold serve at h
  obtain ⟨p, hp, h⟩ := withCurrent_done h
  refine ⟨p, hp, ?_⟩
  have hcaller := isSome_of_currentProcess? hp
  split at h
  · rename_i hcode
    cases h
    left
    exact ⟨by simp only [asked, hp, hcode], m.quiet_note _, _, rfl⟩
  · rename_i code hcode
    obtain ⟨v, c', hv, hn⟩ := Outcome.andThen_eq_done_iff.1 h
    cases hn
    split at hv
    · rename_i e he
      cases hv
      left
      have he' : m.understand p.id code q = .error e := he
      exact ⟨by simp only [asked, hp, hcode, he'],
        (m.quiet_note _).trans (quiet_noteRefusal _ _ _ _), e, rfl⟩
    · rename_i t op hu
      right
      have hu' : m.understand p.id code q = .ok (t, op) := hu
      have ht := isSome_of_understand hcaller hu'
      exact ⟨t, op, _, v, by simp only [asked, hp, hcode, hu'], ht, perform_done hp rfl ht hv,
        quiet_noteRefusal _ _ _ _⟩

theorem serve_of_understood {q : Request} {p : Process} {code : OperationCode}
    (hp : m.kernel.currentProcess? = some p)
    (hcode : OperationCode.ofWord? q.operation = some code)
    (hu : m.understand p.id code q = .ok (target, op)) :
    m.serve q =
      ((m.note (.requested p.id code q.target q.argument)).perform p.id target op).andThen
        fun w c => .done (w.noteRefusal p.id code c) c := by
  unfold serve withCurrent
  rw [hp]
  simp only [hcode]
  have hu' : (m.note (.requested p.id code q.target q.argument)).understand p.id code q =
      .ok (target, op) := hu
  rw [hu']

theorem serve_of_not_understood {q : Request} {p : Process} {code : OperationCode} {e : CallError}
    (hp : m.kernel.currentProcess? = some p)
    (hcode : OperationCode.ofWord? q.operation = some code)
    (hu : m.understand p.id code q = .error e) :
    m.serve q = .done ((m.note (.requested p.id code q.target q.argument)).note
      (.refused p.id code e)) (.ready (.error e)) := by
  unfold serve withCurrent
  rw [hp]
  simp only [hcode]
  have hu' : (m.note (.requested p.id code q.target q.argument)).understand p.id code q =
      .error e := hu
  rw [hu']
  rfl

/-- A request that is not refused at once is an operation between two notes. -/
theorem serve_asked {q : Request} {p : Process} (hp : m.kernel.currentProcess? = some p)
    (h : m.asked q = some (target, op)) :
    ∃ code, m.serve q =
      ((m.note (.requested p.id code q.target q.argument)).perform p.id target op).andThen
        fun w c => .done (w.noteRefusal p.id code c) c := by
  obtain ⟨p', code, hp', hcode, hu⟩ := asked_eq_some h
  cases hp.symm.trans hp'
  exact ⟨code, serve_of_understood hp hcode hu⟩

/-- What becomes of the machine when a request is completed. -/
def completed (m : Machine) (caller : ProcessId) : Completion → Machine
  | .ready r => m.answer caller r.encode
  | .deferred => m

theorem request_done {u : Unit} (h : m.request = .done n u) :
    ∃ p v c, m.kernel.currentProcess? = some p ∧ m.serve m.frame.request = .done v c ∧
      n = v.completed p.id c := by
  unfold request at h
  obtain ⟨p, hp, h⟩ := withCurrent_done h
  obtain ⟨v, c, hv, hn⟩ := Outcome.andThen_eq_done_iff.1 h
  refine ⟨p, v, c, hp, hv, ?_⟩
  cases c with
  | ready r =>
    cases hn
    rfl
  | deferred =>
    cases hn
    rfl

/-! ### The other ways in -/

theorem boot_done {entry : VirtAddr} {r : Except ProcessError ProcessId}
    (h : m.boot entry = .done n r) :
    n = m ∨ ∃ p k w v id, m.kernel.create entry m.kernel.config.stackMap true = .ok (p, k) ∧
      (m.setKernel k).Quiet w ∧ w.schedule = .done v id ∧ v.Quiet n := by
  unfold boot Machine.create at h
  split at h
  · cases h
    exact .inl rfl
  · rename_i p w hw
    split at hw
    · cases hw
    · rename_i k hk
      cases hw
      obtain ⟨v, id, hv, hn⟩ := Outcome.andThen_eq_done_iff.1 h
      cases hn
      exact .inr ⟨_, _, _, v, id, hk, quiet_note _ _, hv, quiet_note _ _⟩

theorem timerInterrupt_done {b : Bool} (h : m.timerInterrupt = .done n b) :
    ∃ w, m.Quiet w ∧
      ((w.kernel.current = none ∧ n = w ∧ b = false) ∨
        (w.kernel.current ≠ none ∧ w.tickSlice.kernel.scheduler.shouldPreempt = false ∧
          n = w.tickSlice ∧ b = false) ∨
        (w.kernel.current ≠ none ∧ w.tickSlice.kernel.scheduler.shouldPreempt = true ∧ b = true ∧
          ∃ id, w.tickSlice.schedule = .done n id)) := by
  unfold timerInterrupt at h
  obtain ⟨v, u, hv, h⟩ := Outcome.andThen_eq_done_iff.1 h
  refine ⟨v.settle, (quiet_tick hv).trans v.quiet_settle, ?_⟩
  simp only at h
  split at h
  · rename_i hc
    cases h
    exact .inl ⟨hc, rfl, rfl⟩
  · rename_i id hc
    have hne : v.settle.kernel.current ≠ none := by rw [hc]; intro e; cases e
    unfold accountTick at h
    simp only at h
    split at h
    · rename_i hs
      obtain ⟨o, id, ho, hn⟩ := Outcome.andThen_eq_done_iff.1 h
      cases hn
      exact .inr (.inr ⟨hne, hs, rfl, id, ho⟩)
    · rename_i hs
      cases h
      exact .inr (.inl ⟨hne, eq_false_of_ne_true hs, rfl, rfl⟩)

theorem interrupt_done {frame : Registers} {count : Nat} (h : m.interrupt frame = .done n count) :
    m.Quiet n := by
  unfold interrupt at h
  obtain ⟨w, k, hw, hn⟩ := Outcome.andThen_eq_done_iff.1 h
  cases hn
  exact (quiet_dispatch hw).trans w.quiet_deliverEvents

theorem shutdown_done {count : Nat} (h : m.shutdown = .done n count) :
    ∃ w, m.Quiet w ∧ n = w.releaseAll.1 := by
  unfold shutdown at h
  obtain ⟨w, u, hw, hn⟩ := Outcome.andThen_eq_done_iff.1 h
  cases hn
  exact ⟨w, quiet_withController (fun m => m.quiet_dropHooksOfAll _) hw, rfl⟩

theorem quiet_takeEvent (m : Machine) (id : ProcessId) : m.Quiet (m.takeEvent id).1 := by
  unfold takeEvent
  split
  · exact .refl m
  · split
    · exact .refl m
    · exact (quiet_modifyProcess _ fun p _ => p.roused_dropEvent).trans (quiet_note _ _)

end Machine
end Nucleus
