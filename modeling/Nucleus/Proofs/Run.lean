import Nucleus.Proofs.Effect

/-!
# Nucleus.Proofs.Run

Runs of a machine. Between two calls of the kernel the process with the CPU may leave any registers
and any memory behind, and what will arrive while the kernel idles next is not known to anybody; so
a run has all of that as an action of its own, besides the calls and what arrives at the devices
without a call.

* `Machine.act`: one action. A call is made on the installed kernel if there is one.
* `Machine.trial`: the actions in a list, done to a kernel with the standard sizes.
* `Reachable`: the machines that actions lead to from a kernel that was just built.
* `Run`: some actions in a row, each with the machine that it ends in.
* `Acted`, `act_done`: the ways in which an action can end, by which every invariant is proved.
-/

namespace Nucleus

/-- What can happen to a machine. -/
inductive Action where
  /-- The process with the CPU goes on until the next trap. -/
  | compute (frame : Registers) (memory : UserMemory) (idle : List (List Arrival))
  /-- A tick or an interrupt reaches the devices past the kernel. -/
  | arrival (a : Arrival)
  | boot (entry : VirtAddr)
  | request
  | timer
  | interrupt (frame : Registers)
  | takeEvent (id : ProcessId)
  | shutdown
  | install
deriving DecidableEq

/-- The action may come to nothing but quiet things. -/
def Action.mayBeQuiet : Action → Bool
  | .compute _ _ _ => false
  | .request => false
  | .shutdown => false
  | _ => true

namespace Machine

/-- The process with the CPU goes on until the next trap: it may do anything to its registers and
its memory. -/
def compute (m : Machine) (frame : Registers) (memory : UserMemory) (idle : List (List Arrival)) :
    Machine :=
  { m.setKernel { m.kernel with memory } with frame, idle }

/-- A machine without the value that comes with it. -/
def forget {α : Type} (o : Outcome α) : Outcome Unit :=
  o.andThen fun m _ => .done m ()

/-- One action. -/
def act (m : Machine) : Action → Outcome Unit
  | .compute frame memory idle => .done (m.compute frame memory idle) ()
  | .arrival a => m.arrive a
  | .boot entry => forget (m.withKernel fun m => m.boot entry)
  | .request => m.withKernel request
  | .timer => forget (m.withKernel timerInterrupt)
  | .interrupt frame => forget (m.withKernel fun m => m.interrupt frame)
  | .takeEvent id => .done (m.takeEvent id).1 ()
  | .shutdown => forget (m.withKernel shutdown)
  | .install => forget m.install

/-- The actions in a list, one after the other. -/
def acts (m : Machine) : List Action → Outcome Unit
  | [] => .done m ()
  | a :: rest => (m.act a).andThen fun m _ => m.acts rest

/-- A pool of sixty-four frames. -/
def trialFrames : FramePool where
  next := 0x100000
  limit := ⟨0x140000, by decide⟩
  free := []

/-- The actions in a list, done to a kernel with the standard sizes, a small pool and a clock. -/
def trial (as : List Action) : Outcome Unit :=
  match Kernel.build .standard trialFrames true with
  | .error _ => .fault .overflow []
  | .ok kernel => (start kernel).acts as

theorem exists_of_trial {as : List Action} {m : Machine} (h : trial as = .done m ()) :
    ∃ kernel, Kernel.build .standard trialFrames true = .ok kernel ∧
      (start kernel).acts as = .done m () := by
  unfold trial at h
  split at h
  · cases h
  · rename_i kernel hk
    exact ⟨kernel, hk, h⟩

/-- An entry point. -/
def trialEntry : VirtAddr where
  word := 0x1000
  canonical := by decide

/-- Registers with a request in them. -/
def asking (target : Word) (code : OperationCode) (argument : Word) : Registers :=
  Registers.reset.withRequest ⟨target, code.toWord, argument, 0⟩

/-- The process with the CPU asks for something. -/
def calls (target : Word) (code : OperationCode) (argument : Word) : List Action :=
  [.compute (asking target code argument) .zeroed [], .request]

/-- A process waits for its child, which is about to end itself with a status. -/
def untilExit (status : Word) : List Action :=
  .boot trialEntry :: calls 0 .spawn 0x2000 ++ calls 2 .waitProcess 0 ++
    [.compute (asking 0 .kill status) .zeroed []]

end Machine

/-- The operation comes to an end, on a machine that passes a check. -/
def Outcome.endsIn (o : Outcome Unit) (check : Machine → Bool) : Bool :=
  match o with
  | .done m () => check m
  | .fault .. => false

theorem Outcome.exists_of_endsIn (o : Outcome Unit) (check : Machine → Bool)
    (h : o.endsIn check = true) : ∃ m, o = .done m () ∧ check m = true := by
  cases o with
  | done m u => exact ⟨m, rfl, h⟩
  | fault f j => cases h

/-- The operation comes to an end with a value, on a machine that passes a check. -/
def Outcome.yields {α : Type} [DecidableEq α] (o : Outcome α) (a : α) (check : Machine → Bool) :
    Bool :=
  match o with
  | .done m b => decide (b = a) && check m
  | .fault .. => false

theorem Outcome.exists_of_yields {α : Type} [DecidableEq α] (o : Outcome α) (a : α)
    (check : Machine → Bool) (h : o.yields a check = true) :
    ∃ m, o = .done m a ∧ check m = true := by
  cases o with
  | done m b =>
    obtain ⟨hvalue, hm⟩ := Bool.and_eq_true_iff.1 h
    exact ⟨m, by rw [of_decide_eq_true hvalue], hm⟩
  | fault f j => cases h

/-- The machines that actions lead to from one on which nothing has happened yet. -/
inductive Reachable : Machine → Prop where
  | start {config : Config} {pool : FramePool} {timed : Bool} {kernel : Kernel} :
      Kernel.build config pool timed = .ok kernel → Reachable (.start kernel)
  | act {m n : Machine} {a : Action} : Reachable m → m.act a = .done n () → Reachable n

/-- Actions in a row, each with the machine that it ends in. -/
inductive Run : Machine → List (Action × Machine) → Prop where
  | nil {m : Machine} : Run m []
  | cons {m n : Machine} {a : Action} {rest : List (Action × Machine)} :
      m.act a = .done n () → Run n rest → Run m ((a, n) :: rest)

/-- The run of the actions in a list, as far as they come to an end. -/
def Machine.trace (m : Machine) : List Action → List (Action × Machine)
  | [] => []
  | a :: rest =>
    match m.act a with
    | .done n () => (a, n) :: n.trace rest
    | .fault .. => []

theorem Machine.run_trace (as : List Action) : ∀ m : Machine, Run m (m.trace as) := by
  induction as with
  | nil => exact fun m => .nil
  | cons a rest ih =>
    intro m
    unfold trace
    split
    · rename_i n ha
      exact .cons ha (ih n)
    · exact .nil

namespace Reachable

theorem acts {as : List Action} :
    ∀ {m n : Machine}, Reachable m → m.acts as = .done n () → Reachable n := by
  induction as with
  | nil =>
    intro m n hm h
    cases h
    exact hm
  | cons a rest ih =>
    intro m n hm h
    obtain ⟨w, u, hw, hn⟩ := Outcome.andThen_eq_done_iff.1 h
    exact ih (hm.act hw) hn

/-- What is kept by each of some actions is kept by all of them. -/
theorem kept {P : Machine → Prop} {as : List Action}
    (hact : ∀ {m n : Machine} {a : Action}, a ∈ as → Reachable m → P m → m.act a = .done n () →
      P n) :
    ∀ {m n : Machine}, Reachable m → P m → m.acts as = .done n () → P n := by
  induction as with
  | nil =>
    intro m n _ hp h
    cases h
    exact hp
  | cons a rest ih =>
    intro m n hm hp h
    obtain ⟨w, u, hw, hn⟩ := Outcome.andThen_eq_done_iff.1 h
    have hfirst := hact List.mem_cons_self hm hp hw
    exact ih (fun hmem => hact (List.mem_cons_of_mem a hmem)) (hm.act hw) hfirst hn

theorem trial {as : List Action} {m : Machine} (h : Machine.trial as = .done m ()) :
    Reachable m := by
  obtain ⟨kernel, hk, h⟩ := Machine.exists_of_trial h
  exact (start hk).acts h

end Reachable

theorem Run.reachable {m : Machine} {run : List (Action × Machine)} (h : Run m run)
    (hm : Reachable m) : ∀ s ∈ run, Reachable s.2 := by
  induction h with
  | nil =>
    intro s hs
    cases hs
  | cons ha _ ih =>
    intro s hs
    rcases List.mem_cons.1 hs with rfl | hs
    · exact hm.act ha
    · exact ih (hm.act ha) s hs

namespace Machine

variable {m n : Machine} {a : Action}

theorem forget_done {α : Type} {o : Outcome α} {u : Unit} (h : forget o = .done n u) :
    ∃ b, o = .done n b := by
  obtain ⟨w, b, hw, hn⟩ := Outcome.andThen_eq_done_iff.1 h
  cases hn
  exact ⟨b, hw⟩

/-- A call works on the kernel with perhaps other locks held, and so would any other call. -/
theorem withKernel_done {α : Type} {op : Machine → Outcome α} {b : α}
    (h : m.withKernel op = .done n b) :
    ∃ (locks locks' : Locks) (w : Machine),
      op { m with locks } = .done w b ∧ n = { w with locks := locks' } ∧
        ∀ {β : Type} (op' : Machine → Outcome β) {w' : Machine} {b' : β},
          op' { m with locks } = .done w' b' → ∃ v, m.withKernel op' = .done v b' := by
  unfold withKernel at h
  split at h
  · rename_i hi
    unfold withSlot at h
    split at h
    · cases h
    · rename_i hs
      obtain ⟨w, b', hw, hn⟩ := Outcome.andThen_eq_done_iff.1 h
      cases hn
      refine ⟨_, _, w, hw, rfl, fun {β} op' {w' b'} h' => ?_⟩
      refine ⟨{ w' with locks := { w'.locks with slot := false } }, ?_⟩
      unfold withKernel withSlot
      rw [if_pos hi, if_neg hs, h']
      rfl
  · rename_i hi
    refine ⟨m.locks, n.locks, n, h, rfl, fun {β} op' {w' b'} h' => ⟨w', ?_⟩⟩
    unfold withKernel
    rw [if_neg hi]
    exact h'

/-- How the request in the frame is completed, if it is. -/
def completion? (m : Machine) : Option Completion :=
  match m.withKernel fun m => m.serve m.frame.request with
  | .done _ c => some c
  | .fault .. => none

/-- How an action can end. -/
inductive Acted (m : Machine) : Action → Machine → Prop where
  | computed {frame : Registers} {memory : UserMemory} {idle : List (List Arrival)} :
      Acted m (.compute frame memory idle) (m.compute frame memory idle)
  /-- It changes nothing that is not quiet. Of a tick of the timer that is so while there is no
  process. -/
  | quietly {a : Action} {n : Machine} :
      a.mayBeQuiet = true → (a = .timer → m.kernel.current = none) → m.Quiet n → Acted m a n
  | booted {entry : VirtAddr} {p : Process} {k : Kernel} {w v n : Machine} {id : ProcessId} :
      m.kernel.create entry m.kernel.config.stackMap true = .ok (p, k) → (m.setKernel k).Quiet w →
      w.schedule = .done v id → v.Quiet n → Acted m (.boot entry) n
  | requested {locks : Locks} {p : Process} {v n : Machine} {c : Completion} :
      m.kernel.currentProcess? = some p → m.completion? = some c →
      { m with locks }.serve m.frame.request = .done v c → (v.completed p.id c).Quiet n →
      Acted m .request n
  | ticked {w n : Machine} :
      m.Quiet w → w.kernel.current ≠ none →
      w.kernel.scheduler.tick.shouldPreempt = false → w.tickSlice.Quiet n → Acted m .timer n
  | preempted {w v n : Machine} {id : ProcessId} :
      m.Quiet w → w.kernel.current ≠ none →
      w.kernel.scheduler.tick.shouldPreempt = true → w.tickSlice.schedule = .done v id →
      v.Quiet n → Acted m .timer n
  | shutDown {w n : Machine} : m.Quiet w → w.releaseAll.1.Quiet n → Acted m .shutdown n

theorem quiet_install {b : Bool} (h : m.install = .done n b) : m.Quiet n := by
  refine quiet_withSlot (fun {m n b} h => ?_) h
  split at h
  · cases h
    exact .refl m
  · refine quiet_withRoute (fun {m n b} h => ?_) h
    cases h
    exact ⟨rfl, .refl _, rfl, rfl, rfl, rfl, rfl, rfl, rfl, rfl, rfl⟩

theorem act_done (h : m.act a = .done n ()) : m.Acted a n := by
  cases a with
  | compute frame memory idle =>
    cases h
    exact .computed
  | arrival a =>
    exact .quietly rfl (by rintro ⟨⟩) (quiet_arrive h)
  | boot entry =>
    obtain ⟨r, h⟩ := forget_done h
    obtain ⟨l, l', w, hw, rfl, _⟩ := withKernel_done h
    rcases boot_done hw with rfl | ⟨p, k, x, v, id, hk, hx, hv, hq⟩
    · exact .quietly rfl (by rintro ⟨⟩) ((m.quiet_locks l).trans (quiet_locks _ _))
    · exact .booted hk ((quiet_locks _ _).trans hx) hv (hq.trans (quiet_locks _ _))
  | request =>
    obtain ⟨l, l', w, hw, rfl, hsame⟩ := withKernel_done h
    obtain ⟨p, v, c, hp, hv, rfl⟩ := request_done hw
    have hc : m.completion? = some c := by
      obtain ⟨u, hu⟩ := hsame (fun m => m.serve m.frame.request) hv
      unfold completion?
      rw [hu]
    exact .requested hp hc hv (quiet_locks _ _)
  | timer =>
    obtain ⟨b, h⟩ := forget_done h
    obtain ⟨l, l', w, hw, rfl, _⟩ := withKernel_done h
    obtain ⟨v, hq, hcases⟩ := timerInterrupt_done hw
    have hv : m.Quiet v := (m.quiet_locks l).trans hq
    rcases hcases with ⟨hc, rfl, _⟩ | ⟨hc, hs, rfl, _⟩ | ⟨hc, hs, _, id, ho⟩
    · exact .quietly rfl (fun _ => hv.current ▸ hc) (hv.trans (quiet_locks _ _))
    · exact .ticked hv hc hs (quiet_locks _ _)
    · exact .preempted hv hc hs ho (quiet_locks _ _)
  | interrupt frame =>
    obtain ⟨b, h⟩ := forget_done h
    obtain ⟨l, l', w, hw, rfl, _⟩ := withKernel_done h
    have hq : m.Quiet w := (m.quiet_locks l).trans (interrupt_done hw)
    exact .quietly rfl (by rintro ⟨⟩) (hq.trans (quiet_locks _ _))
  | takeEvent id =>
    cases h
    exact .quietly rfl (by rintro ⟨⟩) (m.quiet_takeEvent id)
  | shutdown =>
    obtain ⟨b, h⟩ := forget_done h
    obtain ⟨l, l', w, hw, rfl, _⟩ := withKernel_done h
    obtain ⟨v, hq, rfl⟩ := shutdown_done hw
    exact .shutDown ((m.quiet_locks l).trans hq) (quiet_locks _ _)
  | install =>
    obtain ⟨b, h⟩ := forget_done h
    exact .quietly rfl (by rintro ⟨⟩) (quiet_install h)

end Machine

/-- What holds of a kernel that was just built and is kept by every action holds of every machine
that actions lead to. -/
theorem Reachable.invariant {P : Machine → Prop}
    (hstart : ∀ {k : Kernel}, k.Fresh → P (.start k))
    (hact : ∀ {m n : Machine} {a : Action}, Reachable m → P m → m.Acted a n → P n)
    {m : Machine} (h : Reachable m) : P m := by
  induction h with
  | start hk => exact hstart (Kernel.fresh_of_build hk)
  | act hm ha ih => exact hact hm ih (Machine.act_done ha)

end Nucleus
