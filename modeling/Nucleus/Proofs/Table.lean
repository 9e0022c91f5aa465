import Nucleus.Kernel
import Nucleus.Registry.Lemmas

/-!
# Nucleus.Proofs.Table

The table of processes, seen through `get?`: tables with the same identifiers whose processes are
related one by one, and what becomes of a table when a process is created or removed.

* `Registry.Rel`: under each identifier both tables have related processes, or none.
* `mem_leastFree?`: the identifier chosen lies between one and the limit and is not taken.
* `creates_of_create`: a new process, under an identifier that no process has.
* `remove_eq_ok`, `get?_removed`: a process is gone and its waiters are answered.
-/

namespace Nucleus

namespace Registry

variable {R S T : Process → Process → Prop} {r s t : Registry} {id : ProcessId}

theorem get?_eq_none_iff : r.get? id = none ↔ id ∉ r.ids := by
  constructor
  · intro h hmem
    obtain ⟨p, hp, hid⟩ := List.mem_map.1 hmem
    rw [get?_eq_some_iff.2 ⟨hp, hid⟩] at h
    cases h
  · intro h
    cases hp : r.get? id with
    | none => rfl
    | some p =>
      obtain ⟨hmem, hid⟩ := get?_eq_some_iff.1 hp
      exact absurd (List.mem_map.2 ⟨p, hmem, hid⟩) h

theorem of_all {check : Process → Bool} (h : r.toList.all check = true) {p : Process}
    (hp : r.get? id = some p) : check p = true :=
  List.all_eq_true.1 h p (get?_eq_some_iff.1 hp).1

theorem isEmpty_iff : r.isEmpty = true ↔ ∀ id, r.get? id = none := by
  constructor
  · intro h id
    rw [isEmpty, List.isEmpty_iff] at h
    unfold get?
    rw [h]
    rfl
  · intro h
    rw [isEmpty, List.isEmpty_iff]
    cases hl : r.toList with
    | nil => rfl
    | cons p rest =>
      have hp : r.get? p.id = some p := get?_eq_some_iff.2 ⟨by rw [hl]; simp, rfl⟩
      rw [h] at hp
      cases hp

/-- Under each identifier both registries have processes that are related, or none. -/
def Rel (R : Process → Process → Prop) (r s : Registry) : Prop :=
  ∀ id, Option.Rel R (r.get? id) (s.get? id)

theorem Rel.forth (h : Rel R r s) {p : Process} (hp : r.get? id = some p) :
    ∃ q, s.get? id = some q ∧ R p q := by
  have hid := h id
  rw [hp] at hid
  cases hs : s.get? id with
  | none => rw [hs] at hid; cases hid
  | some q =>
    rw [hs] at hid
    cases hid with
    | some hpq => exact ⟨q, rfl, hpq⟩

theorem Rel.back (h : Rel R r s) {q : Process} (hq : s.get? id = some q) :
    ∃ p, r.get? id = some p ∧ R p q := by
  have hid := h id
  rw [hq] at hid
  cases hr : r.get? id with
  | none => rw [hr] at hid; cases hid
  | some p =>
    rw [hr] at hid
    cases hid with
    | some hpq => exact ⟨p, rfl, hpq⟩

theorem Rel.eq_none_iff (h : Rel R r s) : s.get? id = none ↔ r.get? id = none := by
  constructor
  · intro hs
    cases hr : r.get? id with
    | none => rfl
    | some p =>
      obtain ⟨q, hq, _⟩ := h.forth hr
      rw [hs] at hq
      cases hq
  · intro hr
    cases hs : s.get? id with
    | none => rfl
    | some q =>
      obtain ⟨p, hp, _⟩ := h.back hs
      rw [hr] at hp
      cases hp

theorem Rel.of_get? (h : ∀ {id p}, r.get? id = some p → ∃ q, s.get? id = some q ∧ R p q)
    (h' : ∀ {id}, r.get? id = none → s.get? id = none) : Rel R r s := by
  intro id
  cases hr : r.get? id with
  | none =>
    rw [h' hr]
    exact .none
  | some p =>
    obtain ⟨q, hq, hpq⟩ := h hr
    rw [hq]
    exact .some hpq

theorem Rel.refl (h : ∀ p, R p p) (r : Registry) : Rel R r r :=
  .of_get? (fun hp => ⟨_, hp, h _⟩) id

theorem Rel.imp (h : Rel R r s) (hT : ∀ {p q}, R p q → T p q) : Rel T r s := by
  refine .of_get? (fun hp => ?_) h.eq_none_iff.2
  obtain ⟨q, hq, hpq⟩ := h.forth hp
  exact ⟨q, hq, hT hpq⟩

theorem Rel.comp (h : Rel R r s) (h' : Rel S s t) (hT : ∀ {p q u}, R p q → S q u → T p u) :
    Rel T r t := by
  refine .of_get? (fun hp => ?_) fun hr => h'.eq_none_iff.2 (h.eq_none_iff.2 hr)
  obtain ⟨q, hq, hpq⟩ := h.forth hp
  obtain ⟨u, hu, hqu⟩ := h'.forth hq
  exact ⟨u, hu, hT hpq hqu⟩

theorem rel_modify (hR : ∀ p, R p p) {f : Process → Process} (hf : ∀ p, (f p).id = p.id)
    (h : ∀ p, r.get? id = some p → R p (f p)) : Rel R r (r.modify id f hf) := by
  intro j
  rw [get?_modify]
  cases hr : r.get? j with
  | none => split <;> exact .none
  | some p =>
    split
    · rename_i hj
      subst hj
      exact .some (h p hr)
    · exact .some (hR p)

theorem rel_map {f : Process → Process} {hf : ∀ p, (f p).id = p.id} (h : ∀ p, R p (f p)) :
    Rel R r (r.map f hf) := by
  intro j
  rw [get?_map]
  cases r.get? j with
  | none => exact .none
  | some p => exact .some (h p)

end Registry

theorem mem_leastFree? {limit : Nat} {taken : List ProcessId} {id : ProcessId}
    (hlimit : limit < 0x10000000000000000) (h : leastFree? limit taken = some id) :
    1 ≤ id.toNat ∧ id.toNat ≤ limit ∧ id ∉ taken := by
  unfold leastFree? at h
  have htaken := List.find?_some h
  obtain ⟨i, hi, rfl⟩ := List.mem_map.1 (List.mem_of_find?_eq_some h)
  have hlt := List.mem_range.1 hi
  have hid : (UInt64.ofNat (i + 1)).toNat = i + 1 :=
    UInt64.toNat_ofNat_of_lt' (by show i + 1 < 0x10000000000000000; omega)
  refine ⟨by omega, by omega, ?_⟩
  simpa using htaken

namespace Kernel

variable {k k' : Kernel} {id : ProcessId} {p : Process}

/-- Nothing has happened in the kernel yet. -/
structure Fresh (k : Kernel) : Prop where
  config : k.config.validate = .ok ()
  processes : k.processes = .empty
  current : k.current = none
  scheduler : k.scheduler = .new k.config.timeSlice

theorem fresh_of_build {config : Config} {frames : FramePool} {timed : Bool}
    (h : build config frames timed = .ok k) : k.Fresh := by
  unfold build at h
  split at h
  · cases h
  · rename_i hvalid
    cases h
    exact ⟨hvalid, rfl, rfl, rfl⟩

theorem config_of_build {config : Config} {frames : FramePool} {timed : Bool}
    (h : build config frames timed = .ok k) : k.config = config := by
  unfold build at h
  split at h
  · cases h
  · cases h
    rfl

theorem now?_of_build {config : Config} {frames : FramePool} {timed : Bool}
    (h : build config frames timed = .ok k) (htimed : timed = false) : k.now? = none := by
  unfold build at h
  split at h
  · cases h
  · cases h
    simp [now?, htimed]

theorem Fresh.get? (h : k.Fresh) (id : ProcessId) : k.processes.get? id = none := by
  rw [h.processes]
  rfl

/-- A process is new in a kernel and nothing else is, but for the frame it was given. -/
structure Creates (k : Kernel) (entry : VirtAddr) (privileged : Bool) (p : Process) (k' : Kernel) :
    Prop where
  fresh : k.processes.get? p.id = none
  positive : 1 ≤ p.id.toNat
  bounded : p.id.toNat ≤ k.config.maxProcesses.toNat
  process : p = .new p.id entry p.space privileged k.config.eventQueueCapacity
  kernel : k' = { k with processes := k.processes.insert p, frames := k'.frames, booted := true }

theorem nextId?_eq_some (h : k.nextId? = some id) :
    1 ≤ id.toNat ∧ id.toNat ≤ k.config.maxProcesses.toNat ∧ id ∉ k.namedIds := by
  unfold nextId? at h
  split at h
  · exact mem_leastFree? (Word.toNat_lt _) h
  · cases h

theorem creates_of_create {entry : VirtAddr} {map : StackMap} {privileged : Bool}
    (h : k.create entry map privileged = .ok (p, k')) : k.Creates entry privileged p k' := by
  unfold create at h
  split at h
  · cases h
  · rename_i id hid
    split at h
    · cases h
    · cases h
      obtain ⟨hpos, hle, hfree⟩ := nextId?_eq_some hid
      refine ⟨Registry.get?_eq_none_iff.2 fun hmem => hfree ?_, hpos, hle, rfl, rfl⟩
      exact List.mem_append_left _ hmem

theorem Creates.ne {entry : VirtAddr} {privileged : Bool} (h : k.Creates entry privileged p k')
    {q : Process} (hq : k.processes.get? id = some q) : p.id ≠ id := by
  rintro rfl
  rw [h.fresh] at hq
  cases hq

theorem Creates.get? {entry : VirtAddr} {privileged : Bool} (h : k.Creates entry privileged p k')
    (j : ProcessId) : k'.processes.get? j = if p.id = j then some p else k.processes.get? j := by
  rw [h.kernel]
  exact Registry.get?_insert p j

theorem remove_eq_ok {status : Word} (h : k.remove id status = .ok k') :
    ∃ p, k.processes.get? id = some p ∧ k' = { k with
      processes := (k.processes.erase id).deliverExit id status
      frames := k.frames.put p.space.pageDirectory
      current := if k.current = some id then none else k.current } := by
  unfold remove at h
  split at h
  · cases h
  · rename_i p hp
    cases h
    exact ⟨p, hp, rfl⟩

/-- A process when another one has ended. -/
def afterExit (ended : ProcessId) (status : Word) (p : Process) : Process :=
  if p.isWaitingFor ended then p.deliverExit status else p

@[simp] theorem id_afterExit (ended : ProcessId) (status : Word) (p : Process) :
    (afterExit ended status p).id = p.id := by
  unfold afterExit
  split <;> rfl

theorem isWaitingFor_iff {p : Process} :
    p.isWaitingFor id = true ↔ p.state = .waiting ∧ p.waitTarget = some id :=
  decide_eq_true_iff

theorem afterExit_of_ne {ended : ProcessId} {status : Word} (h : p.state ≠ .waiting) :
    afterExit ended status p = p := by
  unfold afterExit
  rw [if_neg]
  intro hw
  exact h (isWaitingFor_iff.1 hw).1

/-- Whoever has the CPU keeps it, unless it is the process that ends. -/
theorem current_removed {status : Word} (h : k.remove id status = .ok k') (j : ProcessId) :
    k'.current = some j ↔ k.current = some j ∧ j ≠ id := by
  obtain ⟨p, _, rfl⟩ := remove_eq_ok h
  show (if k.current = some id then none else k.current) = some j ↔ _
  split
  · rename_i hc
    rw [hc]
    constructor
    · intro e
      cases e
    · rintro ⟨e, hne⟩
      cases e
      exact absurd rfl hne
  · rename_i hc
    constructor
    · intro e
      refine ⟨e, ?_⟩
      rintro rfl
      exact hc e
    · exact And.left

theorem get?_removed {status : Word} (h : k.remove id status = .ok k') (j : ProcessId) :
    k'.processes.get? j =
      if j = id then none else (k.processes.get? j).map (afterExit id status) := by
  obtain ⟨p, _, rfl⟩ := remove_eq_ok h
  show ((k.processes.erase id).deliverExit id status).get? j = _
  unfold Registry.deliverExit Registry.mapIf
  rw [Registry.get?_map, Registry.get?_erase]
  split <;> rfl

end Kernel
end Nucleus
