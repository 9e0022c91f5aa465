import Nucleus.Proofs.Effect

/-!
# Nucleus.Proofs.Fault

In which faults an operation can end. A scheduling decision ends in one only if nothing was created
before, if it idles for ever, if the clock runs over or if it meets a lock; a request of the process
with the CPU ends in no other (`faultsInDecision_perform`, `faultsInDecision_request`). What remains
of the faults is a request without a process that has the CPU.
-/

namespace Nucleus

/-- The faults in which a scheduling decision can end. -/
def Fault.ofDecision : Fault → Bool
  | notBooted => true
  | idleForever => true
  | overflow => true
  | deadlock => true
  | noProcessBound => false
  | physicalRange => false

namespace Outcome

variable {α β : Type}

/-- The operation ends in no fault but one of a scheduling decision. -/
def FaultsInDecision (o : Outcome α) : Prop :=
  ∀ f journal, o = .fault f journal → f.ofDecision = true

theorem faultsInDecision_done (m : Machine) (a : α) : (done m a).FaultsInDecision := by
  intro f j h
  cases h

theorem faultsInDecision_stop {m : Machine} {f : Fault} (h : f.ofDecision = true) :
    (m.stop f : Outcome α).FaultsInDecision := by
  intro g j hg
  cases hg
  exact h

theorem FaultsInDecision.andThen {o : Outcome α} {next : Machine → α → Outcome β}
    (h : o.FaultsInDecision) (hnext : ∀ m a, o = .done m a → (next m a).FaultsInDecision) :
    (o.andThen next).FaultsInDecision := by
  cases o with
  | done m a => exact hnext m a rfl
  | fault f j =>
    intro g j' hg
    cases hg
    exact h f j rfl

end Outcome

namespace Machine

open Outcome

variable {m : Machine} {caller target : ProcessId}

theorem faultsInDecision_withController {α : Type} {body : Machine → Machine × α} :
    (m.withController body).FaultsInDecision := by
  unfold withController
  split
  · exact faultsInDecision_stop rfl
  · exact faultsInDecision_done _ _

theorem faultsInDecision_withRoute {α : Type} {body : Machine → Outcome α}
    (h : ∀ m, (body m).FaultsInDecision) : (m.withRoute body).FaultsInDecision := by
  unfold withRoute
  split
  · exact faultsInDecision_stop rfl
  · exact (h _).andThen fun _ _ _ => faultsInDecision_done _ _

theorem faultsInDecision_withKernel {α : Type} {op : Machine → Outcome α}
    (h : ∀ locks, (op { m with locks }).FaultsInDecision) :
    (m.withKernel op).FaultsInDecision := by
  unfold withKernel
  split
  · unfold withSlot
    split
    · exact faultsInDecision_stop rfl
    · exact (h _).andThen fun _ _ _ => faultsInDecision_done _ _
  · exact h m.locks

/-! ### Decisions -/

theorem overflow_of_advance {d : Devices} {k : Word} {f : Fault} (h : d.advance k = .error f) :
    f = .overflow := by
  unfold Devices.advance Clock.advance at h
  split at h
  · cases h
  · split at h
    · rename_i hc
      split at hc <;> cases hc
      cases h
      rfl
    · cases h

theorem faultsInDecision_tick (m : Machine) : m.tick.FaultsInDecision := by
  unfold tick
  split
  · rename_i f hf
    rw [overflow_of_advance hf]
    exact faultsInDecision_stop rfl
  · exact faultsInDecision_done _ _

theorem faultsInDecision_arrive (m : Machine) (a : Arrival) : (m.arrive a).FaultsInDecision := by
  cases a with
  | tick =>
    simp only [arrive]
    split
    · refine faultsInDecision_withRoute fun m => ?_
      split
      · exact m.faultsInDecision_tick
      · exact faultsInDecision_done _ _
    · exact m.faultsInDecision_tick
  | interrupt vector =>
    simp only [arrive]
    split
    · refine faultsInDecision_withRoute fun m => ?_
      split
      · exact faultsInDecision_withController.andThen fun _ _ _ => faultsInDecision_done _ _
      · exact faultsInDecision_done _ _
    · exact faultsInDecision_withController.andThen fun _ _ _ => faultsInDecision_done _ _

theorem faultsInDecision_arriveAll (as : List Arrival) :
    ∀ m : Machine, (m.arriveAll as).FaultsInDecision := by
  induction as with
  | nil => exact fun m => faultsInDecision_done _ _
  | cons a rest ih => exact fun m => (m.faultsInDecision_arrive a).andThen fun m _ _ => ih m

theorem faultsInDecision_selectNext (active : Option PhysAddr) (waits : List (List Arrival)) :
    ∀ m : Machine, (selectNext active waits m).FaultsInDecision := by
  induction waits with
  | nil =>
    intro m
    unfold selectNext
    simp only
    split
    · exact faultsInDecision_done _ _
    · exact faultsInDecision_stop rfl
  | cons wait rest ih =>
    intro m
    unfold selectNext
    simp only
    split
    · exact faultsInDecision_done _ _
    · exact (faultsInDecision_arriveAll wait _).andThen fun m _ _ => ih m

theorem faultsInDecision_schedule (m : Machine) : m.schedule.FaultsInDecision := by
  unfold schedule
  split
  · exact faultsInDecision_selectNext _ _ _
  · exact faultsInDecision_stop rfl

/-! ### Requests -/

theorem faultsInDecision_withCurrent {α : Type} {p : Process} {next : Process → Outcome α}
    (hp : m.kernel.currentProcess? = some p) (h : (next p).FaultsInDecision) :
    (m.withCurrent next).FaultsInDecision := by
  unfold withCurrent
  rw [hp]
  exact h

/-- A decision and an answer. -/
theorem faultsInDecision_scheduled (m : Machine) {next : Machine → Outcome Completion}
    (h : ∀ m, (next m).FaultsInDecision) :
    (m.schedule.andThen fun m _ => next m).FaultsInDecision :=
  m.faultsInDecision_schedule.andThen fun m _ _ => h m

theorem faultsInDecision_reply (m : Machine) (r : Reply) : (m.reply r).FaultsInDecision :=
  faultsInDecision_done _ _

theorem faultsInDecision_kill (status : Word) : (m.kill target status).FaultsInDecision := by
  unfold kill
  split
  · exact faultsInDecision_reply _ _
  · exact faultsInDecision_withController.andThen fun m _ _ =>
      m.faultsInDecision_scheduled fun m => m.faultsInDecision_reply _

theorem faultsInDecision_replyOfLine (m : Machine) (r : Except LineError Unit) :
    (m.replyOfLine r).FaultsInDecision := by
  unfold replyOfLine
  split <;> exact faultsInDecision_reply _ _

theorem faultsInDecision_writeOut (m : Machine) (buffer : Word) (words : List Word) :
    (m.writeOut buffer words).FaultsInDecision := by
  unfold writeOut
  split <;> exact faultsInDecision_reply _ _

theorem faultsInDecision_sleep {p : Process} (hp : m.kernel.currentProcess? = some p)
    (timer : SleepTimer) : (m.sleep timer).FaultsInDecision := by
  refine faultsInDecision_withCurrent hp ?_
  simp only
  split
  · exact faultsInDecision_reply _ _
  · exact faultsInDecision_scheduled _ fun m => m.faultsInDecision_reply _

theorem faultsInDecision_perform {p : Process} (hp : m.kernel.currentProcess? = some p)
    (op : Operation) : (m.perform caller target op).FaultsInDecision := by
  cases op with
  | spawn entry =>
    simp only [perform, spawn]
    split <;> exact faultsInDecision_reply _ _
  | kill status => exact faultsInDecision_kill status
  | getId => exact faultsInDecision_reply _ _
  | getParent => exact faultsInDecision_withCurrent hp (faultsInDecision_reply _ _)
  | watchLine line =>
    exact faultsInDecision_withController.andThen fun m r _ => m.faultsInDecision_replyOfLine r
  | enableLine line =>
    exact faultsInDecision_withController.andThen fun m r _ => m.faultsInDecision_replyOfLine r
  | disableLine line =>
    exact faultsInDecision_withController.andThen fun m r _ => m.faultsInDecision_replyOfLine r
  | describeProcess buffer =>
    simp only [perform, describeProcess]
    split
    · exact faultsInDecision_reply _ _
    · exact faultsInDecision_writeOut _ _ _
  | waitProcess =>
    simp only [perform, waitProcess]
    split
    · exact faultsInDecision_reply _ _
    · exact faultsInDecision_withCurrent hp
        (faultsInDecision_scheduled _ fun m => faultsInDecision_done m _)
  | readClock buffer =>
    simp only [perform, readClock]
    split
    · exact faultsInDecision_reply _ _
    · exact faultsInDecision_writeOut _ _ _
  | waitTimer deadline =>
    simp only [perform, waitTimer]
    split
    · exact faultsInDecision_reply _ _
    · split
      · exact faultsInDecision_reply _ _
      · exact faultsInDecision_withCurrent hp
          (faultsInDecision_scheduled _ fun m => m.faultsInDecision_reply _)
  | enterSleep deadline =>
    simp only [perform, enterSleep]
    split
    · exact faultsInDecision_sleep hp _
    · split
      · exact faultsInDecision_reply _ _
      · split
        · exact faultsInDecision_reply _ _
        · exact faultsInDecision_sleep hp _
  | yieldCpu => exact faultsInDecision_scheduled _ fun m => m.faultsInDecision_reply _
  | resume =>
    simp only [perform, resume]
    split <;> exact faultsInDecision_reply _ _
  | setStack stack =>
    simp only [perform, setStack]
    split <;> exact faultsInDecision_reply _ _

theorem faultsInDecision_serve {p : Process} (hp : m.kernel.currentProcess? = some p)
    (q : Request) : (m.serve q).FaultsInDecision := by
  refine faultsInDecision_withCurrent hp ?_
  split
  · exact faultsInDecision_reply _ _
  · refine Outcome.FaultsInDecision.andThen ?_ fun _ _ _ => faultsInDecision_done _ _
    split
    · exact faultsInDecision_reply _ _
    · exact faultsInDecision_perform (m := m.note _) (p := p) hp _

theorem faultsInDecision_request {p : Process} (hp : m.kernel.currentProcess? = some p) :
    m.request.FaultsInDecision := by
  refine faultsInDecision_withCurrent hp ((faultsInDecision_serve hp _).andThen fun m c _ => ?_)
  cases c <;> exact faultsInDecision_done _ _

end Machine
end Nucleus
