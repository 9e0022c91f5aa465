import Mathlib.Data.List.Nodup
import Mathlib.Data.List.Perm.Subperm
import Nucleus.Proofs.Circle

/-!
# Nucleus.Proofs.Creation

When a process can be created, and what the two requests for one answer. A process gets the least
identifier that is free; the search for it looks at few candidates only and gives up early in a full
table, so it has to be shown that it misses none.

* `Kernel.FreeId`: an identifier that neither a process nor the parent of a process has.
* `leastFreeId_of_nextId?`, `nextId?_eq_none_iff`: the identifier chosen is the least free one, and
  none is chosen exactly if none is free.
* `create_eq_ok`: what a successful creation has found, and what it makes of the kernel.
* `withKernel_boot`, `withKernel_spawn`: booting and spawning come to an end and answer with what
  came of the creation.
-/

namespace Nucleus

/-! ### The least identifier -/

/-- The identifiers from one to `n`. -/
def numbered (n : Nat) : List ProcessId :=
  (List.range n).map fun i => UInt64.ofNat (i + 1)

theorem toNat_ofNat_succ {i n : Nat} (hn : n < 0x10000000000000000) (hi : i < n) :
    (UInt64.ofNat (i + 1)).toNat = i + 1 :=
  UInt64.toNat_ofNat_of_lt' (by show i + 1 < 0x10000000000000000; omega)

theorem mem_numbered {n : Nat} {id : ProcessId} (hn : n < 0x10000000000000000) :
    id ∈ numbered n ↔ 1 ≤ id.toNat ∧ id.toNat ≤ n := by
  unfold numbered
  constructor
  · intro h
    obtain ⟨i, hi, rfl⟩ := List.mem_map.1 h
    rw [toNat_ofNat_succ hn (List.mem_range.1 hi)]
    exact ⟨Nat.le_add_left 1 i, List.mem_range.1 hi⟩
  · rintro ⟨hpos, hle⟩
    refine List.mem_map.2 ⟨id.toNat - 1, List.mem_range.2 (by omega), ?_⟩
    rw [Nat.sub_add_cancel hpos]
    exact UInt64.ofNat_toNat

theorem nodup_numbered {n : Nat} (hn : n < 0x10000000000000000) : (numbered n).Nodup := by
  unfold numbered
  refine List.Nodup.map_on (fun i hi j hj h => ?_) List.nodup_range
  have hij := congrArg UInt64.toNat h
  rw [toNat_ofNat_succ hn (List.mem_range.1 hi), toNat_ofNat_succ hn (List.mem_range.1 hj)] at hij
  omega

@[simp] theorem length_numbered (n : Nat) : (numbered n).length = n := by
  simp [numbered]

section LeastFree

variable {limit : Nat} {taken : List ProcessId} {id : ProcessId}

/-- No smaller number is free than the one found. -/
theorem le_of_leastFree? (h : leastFree? limit taken = some id) {j : ProcessId}
    (hpos : 1 ≤ j.toNat) (hfree : j ∉ taken) : id.toNat ≤ j.toNat := by
  unfold leastFree? at h
  rw [List.find?_map] at h
  obtain ⟨i, hi, rfl⟩ := Option.map_eq_some_iff.1 h
  obtain ⟨_, _, hsmaller⟩ := List.find?_range_eq_some.1 hi
  by_contra hlt
  have hle : (UInt64.ofNat (i + 1)).toNat ≤ i + 1 := by
    rw [UInt64.toNat_ofNat']
    exact Nat.mod_le _ _
  have htaken := hsmaller (j.toNat - 1) (by omega)
  rw [Function.comp_apply, Nat.sub_add_cancel hpos, UInt64.ofNat_toNat] at htaken
  simp [hfree] at htaken

/-- Among more numbers than there are taken ones one is free. -/
theorem exists_free (hlimit : limit < 0x10000000000000000) (h : taken.length < limit) :
    ∃ j ∈ numbered limit, j ∉ taken := by
  by_contra hnone
  have hsub : numbered limit ⊆ taken := fun j hj => by
    by_contra hfree
    exact hnone ⟨j, hj, hfree⟩
  have hle := ((nodup_numbered hlimit).subperm hsub).length_le
  rw [length_numbered] at hle
  omega

/-- The search gives up only where all numbers up to the limit are taken. -/
theorem leastFree?_eq_none (hlimit : limit < 0x10000000000000000)
    (h : leastFree? limit taken = none) {j : ProcessId} (hpos : 1 ≤ j.toNat)
    (hle : j.toNat ≤ limit) : j ∈ taken := by
  have hall : ∀ i ∈ numbered (min limit (taken.length + 1)), i ∈ taken := fun i hi => by
    have hi' := List.find?_eq_none.1 h i hi
    simpa using hi'
  rcases Nat.lt_or_ge taken.length limit with hlt | hge
  · have hexists : ∃ i ∈ numbered (taken.length + 1), i ∉ taken :=
      exists_free (by omega) (Nat.lt_succ_self _)
    obtain ⟨i, hi, hfree⟩ := hexists
    rw [Nat.min_eq_right hlt] at hall
    exact absurd (hall i hi) hfree
  · refine hall j ((mem_numbered (by omega)).2 ⟨hpos, ?_⟩)
    omega

end LeastFree

theorem Registry.nodup_ids (r : Registry) : r.ids.Nodup := by
  unfold ids
  exact List.pairwise_map.2 (r.sorted.imp fun h => UInt64.ne_of_lt h)

namespace Kernel

variable {k k' : Kernel} {id : ProcessId} {p : Process} {entry : VirtAddr} {map : StackMap}
  {privileged : Bool}

/-- A process may get the identifier: it lies within the limit, and neither a process nor the parent
of a process has it. -/
structure FreeId (k : Kernel) (id : ProcessId) : Prop where
  positive : 1 ≤ id.toNat
  bounded : id.toNat ≤ k.config.maxProcesses.toNat
  unregistered : k.processes.get? id = none
  unnamed : ∀ {j p}, k.processes.get? j = some p → p.parent ≠ id

/-- No smaller identifier is free. -/
def LeastFreeId (k : Kernel) (id : ProcessId) : Prop :=
  k.FreeId id ∧ ∀ j, k.FreeId j → id.toNat ≤ j.toNat

theorem not_mem_namedIds : id ∉ k.namedIds ↔
    k.processes.get? id = none ∧ ∀ {j p}, k.processes.get? j = some p → p.parent ≠ id := by
  unfold namedIds
  rw [List.mem_append, not_or, Registry.get?_eq_none_iff]
  refine and_congr_right fun _ => ⟨fun h j p hp e => ?_, fun h hmem => ?_⟩
  · exact h (List.mem_map.2 ⟨p, (Registry.get?_eq_some_iff.1 hp).1, e⟩)
  · obtain ⟨p, hp, e⟩ := List.mem_map.1 hmem
    exact h (Registry.get?_eq_some_iff.2 ⟨hp, rfl⟩) e

theorem leastFreeId_of_nextId? (h : k.nextId? = some id) : k.LeastFreeId id := by
  obtain ⟨hpos, hle, hfree⟩ := nextId?_eq_some h
  obtain ⟨hid, hparent⟩ := not_mem_namedIds.1 hfree
  refine ⟨⟨hpos, hle, hid, hparent⟩, fun j hj => ?_⟩
  unfold nextId? at h
  split at h
  · exact le_of_leastFree? h hj.positive (not_mem_namedIds.2 ⟨hj.unregistered, hj.unnamed⟩)
  · cases h

/-- Where an identifier is free there is room for a process. -/
theorem size_lt_of_freeId
    (hids : ∀ {j p}, k.processes.get? j = some p →
      1 ≤ j.toNat ∧ j.toNat ≤ k.config.maxProcesses.toNat)
    (h : k.FreeId id) : k.processes.size < k.config.maxProcesses.toNat := by
  have hmax := Word.toNat_lt k.config.maxProcesses
  have hnodup : (id :: k.processes.ids).Nodup :=
    List.nodup_cons.2 ⟨Registry.get?_eq_none_iff.1 h.unregistered, Registry.nodup_ids _⟩
  have hsub : id :: k.processes.ids ⊆ numbered k.config.maxProcesses.toNat := by
    intro j hj
    rw [mem_numbered hmax]
    rcases List.mem_cons.1 hj with rfl | hj
    · exact ⟨h.positive, h.bounded⟩
    · obtain ⟨p, hp, rfl⟩ := List.mem_map.1 hj
      exact hids (Registry.get?_eq_some_iff.2 ⟨hp, rfl⟩)
  have hle := (hnodup.subperm hsub).length_le
  rw [List.length_cons, length_numbered] at hle
  unfold Registry.ids at hle
  rw [List.length_map] at hle
  exact hle

/-- No identifier is chosen exactly if none is free; the look at the number of processes that comes
first never speaks against a free one. -/
theorem nextId?_eq_none_iff
    (hids : ∀ {j p}, k.processes.get? j = some p →
      1 ≤ j.toNat ∧ j.toNat ≤ k.config.maxProcesses.toNat) :
    k.nextId? = none ↔ ∀ id, ¬ k.FreeId id := by
  constructor
  · intro h id hid
    unfold nextId? at h
    rw [if_pos (size_lt_of_freeId hids hid)] at h
    refine not_mem_namedIds.2 ⟨hid.unregistered, hid.unnamed⟩ ?_
    exact leastFree?_eq_none (Word.toNat_lt _) h hid.positive hid.bounded
  · intro h
    cases hid : k.nextId? with
    | none => rfl
    | some id => exact absurd (leastFreeId_of_nextId? hid).1 (h id)

/-! ### Creation -/

theorem allocate_eq_ok {pool rest : FramePool} {space : AddressSpace}
    (h : AddressSpace.allocate pool map id = .ok (space, rest)) :
    pool.take? = some (space.pageDirectory, rest) := by
  unfold AddressSpace.allocate at h
  split at h
  · split at h
    · split at h
      · cases h
      · rename_i htake
        cases h
        exact htake
    · cases h
    · cases h
  · cases h

/-- What a successful creation has found, and what it makes of the kernel. -/
theorem create_eq_ok (h : k.create entry map privileged = .ok (p, k')) :
    ∃ frames, k.nextId? = some p.id ∧ k.frames.take? = some (p.space.pageDirectory, frames) ∧
      p = .new p.id entry p.space privileged k.config.eventQueueCapacity ∧
      k' = { k with processes := k.processes.insert p, frames, booted := true } := by
  unfold create at h
  split at h
  · cases h
  · rename_i id hid
    split at h
    · cases h
    · rename_i space frames hspace
      cases h
      exact ⟨frames, hid, allocate_eq_ok hspace, rfl, rfl⟩

theorem allocate_ne_outOfProcesses {pool : FramePool} :
    AddressSpace.allocate pool map id ≠ .error .outOfProcesses := by
  have hslot : ∀ {slot}, AddressSpace.slotAddress slot ≠ .error .outOfProcesses := by
    intro slot h
    unfold AddressSpace.slotAddress at h
    split at h <;> cases h
  intro h
  unfold AddressSpace.allocate at h
  split at h
  · split at h
    · split at h <;> cases h
    · rename_i huser
      cases h
      exact hslot huser
    · rename_i hkernel _
      cases h
      exact hslot hkernel
  · cases h

theorem create_eq_outOfProcesses_iff :
    k.create entry map privileged = .error .outOfProcesses ↔ k.nextId? = none := by
  unfold create
  constructor
  · intro h
    split at h
    · assumption
    · split at h
      · rename_i hspace
        cases h
        exact absurd hspace allocate_ne_outOfProcesses
      · cases h
  · intro h
    rw [h]

end Kernel

/-! ### Booting and spawning -/

/-- What the caller of a request for a new process is told of the creation. -/
def Reply.ofCreation : Except ProcessError (Process × Kernel) → Reply
  | .error e => .error e.toCallError
  | .ok (p, _) => .value p.id

/-- The answer says of the new process only its identifier. -/
theorem Reply.ofCreation_eq (r : Except ProcessError (Process × Kernel)) :
    Reply.ofCreation r = match r.map fun r => r.1.id with
      | .error e => .error e.toCallError
      | .ok id => .value id := by
  cases r <;> rfl

namespace Machine

variable {m : Machine}

/-- Booting comes to an end: the new process is ready, so the scheduler finds one. -/
theorem withKernel_boot (hl : m.locks = .free) (entry : VirtAddr) :
    ∃ n, m.withKernel (fun m => m.boot entry) = .done n
      ((m.kernel.create entry m.kernel.config.stackMap true).map fun r => r.1.id) := by
  obtain ⟨locks, give, hcall⟩ := withKernel_of_free hl fun m => m.boot entry
  rw [hcall]
  unfold boot Machine.create
  simp only
  cases hk : m.kernel.create entry m.kernel.config.stackMap true with
  | error e => exact ⟨_, rfl⟩
  | ok r =>
    obtain ⟨p, k⟩ := r
    have hcreated := Kernel.creates_of_create hk
    have hbooted : k.booted = true := by rw [hcreated.kernel]
    have hget : k.processes.get? p.id = some p := by rw [hcreated.get?, if_pos rfl]
    have hready : p.state = .ready := by rw [hcreated.process]; rfl
    let w := ({ m with locks }.setKernel k).note (.created p.id entry p.space)
    obtain ⟨v, j, hv⟩ := schedule_of_ready (m := w) hbooted hget hready
    simp only
    rw [show schedule _ = .done v j from hv]
    exact ⟨_, rfl⟩

/-- A request for a new process comes to an end at once. -/
theorem withKernel_spawn (hl : m.locks = .free) {q : Request} {target : ProcessId}
    {entry : VirtAddr} (hasked : m.asked q = some (target, .spawn entry)) :
    ∃ n, m.withKernel (fun m => m.serve q) = .done n
      (.ready (.ofCreation (m.kernel.create entry m.kernel.config.stackMap false))) := by
  obtain ⟨p, _, hp, _, _⟩ := asked_eq_some hasked
  obtain ⟨locks, give, hcall⟩ := withKernel_of_free hl fun m => m.serve q
  obtain ⟨code, hserve⟩ := serve_asked (m := { m with locks }) hp hasked
  rw [hcall, hserve]
  simp only [perform, spawn, Machine.create]
  rw [show (({ m with locks } : Machine).note (.requested p.id code q.target q.argument)).kernel =
    m.kernel from rfl]
  cases m.kernel.create entry m.kernel.config.stackMap false with
  | error e => exact ⟨_, rfl⟩
  | ok r => exact ⟨_, rfl⟩

end Machine
end Nucleus
