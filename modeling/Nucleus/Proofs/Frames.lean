import Nucleus.Proofs.Population

/-!
# Nucleus.Proofs.Frames

The frames for page directories: where they are at any time. Those that were handed out once, and no
others, are with a process or were returned, each in one place; the remaining ones of the pool were
never out. So no frame is shared, lost or made up, whatever happens.

* `FramePool.take?_eq_some`, `isSome_take?_iff`: which frame goes out next, and when there is one.
* `Kernel.Issues`: the first so many frames of the pool are those of processes and those returned.
* `issues_turnover`, `issues_acts`: it is kept by whatever happens to the population, and so by a
  run.
* `frames_conserved`: what that means for page directories, the free list and new processes.
-/

namespace Nucleus

/-! ### The pool -/

/-- The first multiple of the frame size at or above an address. -/
theorem PhysAddr.alignUp?_eq_some {a first : PhysAddr} (h : a.alignUp? = some first) :
    first.word.toNat % 4096 = 0 ∧ a.word.toNat ≤ first.word.toNat ∧
      first.word.toNat < a.word.toNat + 4096 := by
  unfold PhysAddr.alignUp? PhysAddr.ofWord? at h
  split at h
  · cases h
    have := a.inRange
    have hsum : (a.word + (frameSize - 1)).toNat = a.word.toNat + 4095 := by
      rw [UInt64.toNat_add, show (frameSize - 1).toNat = 4095 from rfl]
      exact Nat.mod_eq_of_lt (by omega)
    have hword : ((a.word + (frameSize - 1)) / frameSize * frameSize).toNat =
        (a.word.toNat + 4095) / 4096 * 4096 := by
      rw [UInt64.toNat_mul, UInt64.toNat_div, hsum, show frameSize.toNat = 4096 from rfl]
      exact Nat.mod_eq_of_lt (by omega)
    show ((a.word + (frameSize - 1)) / frameSize * frameSize).toNat % 4096 = 0 ∧ _ ≤
      ((a.word + (frameSize - 1)) / frameSize * frameSize).toNat ∧
        ((a.word + (frameSize - 1)) / frameSize * frameSize).toNat < _
    rw [hword]
    omega
  · cases h

namespace FramePool

variable {pool rest : FramePool} {f : PhysAddr}

theorem available_eq (pool : FramePool) :
    pool.available = (pool.limit.word.toNat - pool.next.toNat) / 4096 + pool.free.length := by
  unfold available
  rw [UInt64.toNat_div, Word.toNat_subFloor]
  rfl

/-- The frame returned last goes out, or else the lowest one that was never out. -/
theorem take?_eq_some (h : pool.take? = some (f, rest)) :
    rest.limit = pool.limit ∧
      (pool.free = f :: rest.free ∧ rest.next = pool.next ∨
        pool.free = [] ∧ rest.free = [] ∧ f.word = pool.next ∧
          rest.next.toNat = pool.next.toNat + 4096 ∧
            rest.next.toNat ≤ pool.limit.word.toNat) := by
  unfold take? at h
  split at h
  · rename_i hfree
    cases h
    exact ⟨rfl, .inl ⟨hfree, rfl⟩⟩
  · rename_i hfree
    split at h
    · cases h
    · rename_i after hafter
      split at h
      · rename_i hle
        cases h
        exact ⟨rfl, .inr ⟨hfree, hfree, rfl, Word.add?_eq_some_iff.1 hafter,
          UInt64.le_iff_toNat_le.1 hle⟩⟩
      · cases h

theorem isSome_take?_iff : pool.take?.isSome ↔ pool.available ≠ 0 := by
  rw [available_eq]
  unfold take?
  have hlimit := pool.limit.inRange
  split
  · rename_i hfree
    rw [hfree, List.length_cons]
    exact iff_of_true rfl (by omega)
  · rename_i hfree
    rw [hfree, List.length_nil]
    split
    · rename_i hnone
      have hover := Word.add?_eq_none_iff.1 hnone
      have : frameSize.toNat = 4096 := rfl
      exact iff_of_false Bool.false_ne_true (by omega)
    · rename_i after hafter
      have hsum : after.toNat = pool.next.toNat + 4096 := Word.add?_eq_some_iff.1 hafter
      split
      · rename_i hle
        have := UInt64.le_iff_toNat_le.1 hle
        exact iff_of_true rfl (by omega)
      · rename_i hnle
        rw [UInt64.le_iff_toNat_le] at hnle
        exact iff_of_false Bool.false_ne_true (by omega)

theorem foldl_put (l : List PhysAddr) :
    ∀ pool : FramePool, l.foldl put pool = { pool with free := l.reverse ++ pool.free } := by
  induction l with
  | nil => exact fun _ => rfl
  | cons f rest ih =>
    intro pool
    rw [List.foldl_cons, ih, List.reverse_cons, List.append_assoc]
    rfl

end FramePool

/-! ### Page directories -/

namespace Registry

variable {r s : Registry} {id : ProcessId} {p : Process}

/-- The page directories of all processes, in the order of their identifiers. -/
def directories (r : Registry) : List PhysAddr :=
  r.toList.map fun p => p.space.pageDirectory

theorem mem_toList_iff : p ∈ r.toList ↔ r.get? p.id = some p := by
  rw [get?_eq_some_iff]
  exact (and_iff_left rfl).symm

theorem nodup_toList (r : Registry) : r.toList.Nodup :=
  .of_map Process.id r.nodup_ids

theorem toList_insert (h : r.get? p.id = none) : (r.insert p).toList.Perm (p :: r.toList) := by
  have hnew : p ∉ r.toList := fun hp => by
    rw [mem_toList_iff, h] at hp
    cases hp
  refine (List.perm_ext_iff_of_nodup (nodup_toList _) (List.nodup_cons.2 ⟨hnew, nodup_toList r⟩)).2
    fun q => ?_
  rw [List.mem_cons, mem_toList_iff, mem_toList_iff, get?_insert]
  split
  · rename_i hid
    rw [← hid, h]
    simp [eq_comm]
  · rename_i hid
    rw [or_iff_right]
    rintro rfl
    exact hid rfl

theorem toList_erase (h : r.get? id = some p) : r.toList.Perm (p :: (r.erase id).toList) := by
  have hid := id_of_get? h
  have hgone : p ∉ (r.erase id).toList := fun hp => by
    rw [mem_toList_iff, get?_erase, if_pos hid] at hp
    cases hp
  refine (List.perm_ext_iff_of_nodup (nodup_toList r)
    (List.nodup_cons.2 ⟨hgone, nodup_toList _⟩)).2 fun q => ?_
  rw [List.mem_cons, mem_toList_iff, mem_toList_iff, get?_erase]
  split
  · rename_i hq
    rw [hq, h]
    simp [eq_comm]
  · rename_i hq
    rw [or_iff_right]
    rintro rfl
    exact hq hid

/-- Each identifier with its process's page directory. -/
def located (r : Registry) : List (ProcessId × PhysAddr) :=
  r.toList.map fun p => (p.id, p.space.pageDirectory)

theorem nodup_located (r : Registry) : r.located.Nodup := by
  refine List.Nodup.of_map Prod.fst ?_
  unfold located
  rw [List.map_map]
  exact r.nodup_ids

theorem map_snd_located (r : Registry) : r.located.map Prod.snd = r.directories :=
  List.map_map

theorem mem_located_iff {f : PhysAddr} :
    (id, f) ∈ r.located ↔ ∃ p, r.get? id = some p ∧ p.space.pageDirectory = f := by
  unfold located
  rw [List.mem_map]
  constructor
  · rintro ⟨p, hp, e⟩
    cases e
    exact ⟨p, mem_toList_iff.1 hp, rfl⟩
  · rintro ⟨p, hp, rfl⟩
    obtain ⟨hmem, rfl⟩ := get?_eq_some_iff.1 hp
    exact ⟨p, hmem, rfl⟩

/-- The page directories are decided by what is found under each identifier. -/
theorem directories_of_rel
    (h : Rel (fun p q => q.space.pageDirectory = p.space.pageDirectory) r s) :
    s.directories.Perm r.directories := by
  have hlocated : s.located.Perm r.located := by
    refine (List.perm_ext_iff_of_nodup s.nodup_located r.nodup_located).2 fun ⟨i, f⟩ => ?_
    rw [mem_located_iff, mem_located_iff]
    constructor
    · rintro ⟨q, hq, rfl⟩
      obtain ⟨p, hp, hpq⟩ := h.back hq
      exact ⟨p, hp, hpq.symm⟩
    · rintro ⟨p, hp, rfl⟩
      obtain ⟨q, hq, hpq⟩ := h.forth hp
      exact ⟨q, hq, hpq⟩
  rw [← map_snd_located, ← map_snd_located]
  exact hlocated.map Prod.snd

end Registry

namespace Kernel

/-- The frames that were handed out at some time: those of processes and those returned. -/
def issued (k : Kernel) : List PhysAddr :=
  k.processes.directories ++ k.frames.free

/-- The first so many frames from `first` on are out or were returned, each once, and the others up
to the limit never were out. -/
structure Issues (k : Kernel) (first : Word) (limit : PhysAddr) (count : Nat) : Prop where
  upTo : k.frames.limit = limit
  next : k.frames.next.toNat = first.toNat + 4096 * count
  room : count = 0 ∨ k.frames.next.toNat ≤ limit.word.toNat
  frames : (k.issued.map fun f => f.word.toNat).Perm
    ((List.range count).map fun i => first.toNat + 4096 * i)

variable {k k' : Kernel} {first : Word} {limit : PhysAddr} {count : Nat}

/-- Only the order of the frames that were handed out may be another one. -/
theorem Issues.of_perm (h : k.Issues first limit count) (hlimit : k'.frames.limit = k.frames.limit)
    (hnext : k'.frames.next = k.frames.next) (hissued : k'.issued.Perm k.issued) :
    k'.Issues first limit count :=
  ⟨hlimit.trans h.upTo, by rw [hnext]; exact h.next, by rw [hnext]; exact h.room,
    (hissued.map _).trans h.frames⟩

theorem Issues.create {entry : VirtAddr} {map : StackMap} {privileged : Bool} {p : Process}
    (h : k.Issues first limit count) (hk : k.create entry map privileged = .ok (p, k')) :
    ∃ count', k'.Issues first limit count' := by
  have hadded : (k.processes.insert p).directories.Perm
      (p.space.pageDirectory :: k.processes.directories) :=
    (Registry.toList_insert (creates_of_create hk).fresh).map _
  obtain ⟨frames, _, htake, _, rfl⟩ := create_eq_ok hk
  obtain ⟨hlimit, ⟨hfree, hnext⟩ | ⟨hfree, hrest, hword, hnext, hle⟩⟩ :=
    FramePool.take?_eq_some htake
  · -- A frame that was returned goes out again.
    refine ⟨count, h.of_perm hlimit hnext ?_⟩
    unfold issued
    rw [hfree]
    exact (hadded.append_right _).trans List.perm_middle.symm
  · -- The next frame goes out for the first time.
    refine ⟨count + 1, hlimit.trans h.upTo, ?_, .inr (h.upTo ▸ hle), ?_⟩
    · show frames.next.toNat = _
      rw [hnext, h.next]
      omega
    · have hbefore := h.frames
      have hframe : p.space.pageDirectory.word.toNat = first.toNat + 4096 * count := by
        rw [hword, h.next]
      unfold issued at hbefore ⊢
      simp only [hfree, hrest, List.append_nil] at hbefore ⊢
      rw [List.range_succ, List.map_append, List.map_singleton, ← hframe]
      exact ((hadded.map _).trans (hbefore.cons _)).trans (List.perm_append_singleton _ _).symm

theorem Issues.remove {id : ProcessId} {status : Word} (h : k.Issues first limit count)
    (hk : k.remove id status = .ok k') : k'.Issues first limit count := by
  obtain ⟨p, hp, rfl⟩ := remove_eq_ok hk
  refine h.of_perm rfl rfl ?_
  have hanswered : ((k.processes.erase id).deliverExit id status).directories.Perm
      (k.processes.erase id).directories := by
    unfold Registry.deliverExit Registry.mapIf
    exact Registry.directories_of_rel
      (Registry.rel_map fun p => (lasting_afterExit id status p).directory)
  have hparted : k.processes.directories.Perm
      (p.space.pageDirectory :: (k.processes.erase id).directories) :=
    (Registry.toList_erase hp).map _
  -- The page directory of the process goes from the one list to the other.
  exact ((hanswered.append_right _).trans List.perm_middle).trans (hparted.append_right _).symm

theorem Issues.releaseAll (h : k.Issues first limit count) :
    k.releaseAll.Issues first limit count := by
  have hfold := FramePool.foldl_put k.processes.directories k.frames
  have hframes : k.releaseAll.frames =
      { k.frames with free := k.processes.directories.reverse ++ k.frames.free } := hfold
  refine h.of_perm (by rw [hframes]) (by rw [hframes]) ?_
  unfold issued
  rw [hframes]
  exact (List.reverse_perm _).append_right _

theorem issues_of_build {config : Config} {pool : FramePool} {timed : Bool} {start : PhysAddr}
    (hpool : FramePool.ofRange? start limit = some pool) (hk : build config pool timed = .ok k) :
    ∃ first, start.alignUp? = some first ∧ k.Issues first.word limit 0 := by
  unfold FramePool.ofRange? at hpool
  split at hpool
  · cases hpool
  · rename_i f hf
    cases hpool
    unfold build at hk
    split at hk
    · cases hk
    · cases hk
      exact ⟨f, hf, rfl, rfl, .inl rfl, .refl _⟩

/-! ### What follows -/

theorem Issues.nodup (h : k.Issues first limit count) : k.issued.Nodup := by
  refine List.Nodup.of_map (fun f : PhysAddr => f.word.toNat) ?_
  refine h.frames.nodup_iff.2 (List.Nodup.map (fun i j hij => ?_) List.nodup_range)
  omega

theorem Issues.mem (h : k.Issues first limit count) {f : PhysAddr} (hf : f ∈ k.issued) :
    ∃ i < count, f.word.toNat = first.toNat + 4096 * i := by
  have hmem := h.frames.mem_iff.1 (List.mem_map_of_mem (f := fun f : PhysAddr => f.word.toNat) hf)
  obtain ⟨i, hi, he⟩ := List.mem_map.1 hmem
  exact ⟨i, List.mem_range.1 hi, he.symm⟩

/-- The frames that can still go out and the processes are together as many as the whole frames of
the pool. -/
theorem Issues.available (h : k.Issues first limit count) :
    k.frames.available + k.processes.size = (limit.word.toNat - first.toNat) / 4096 := by
  have hlength := h.frames.length_eq
  unfold issued Registry.directories at hlength
  simp only [List.length_map, List.length_append, List.length_range] at hlength
  have hsplit : (limit.word.toNat - first.toNat) / 4096 =
      (limit.word.toNat - k.frames.next.toNat) / 4096 + count := by
    rw [h.next]
    rcases h.room with rfl | hle
    · rfl
    · have hnext := h.next
      rw [← Nat.add_mul_div_left _ _ (by decide : 0 < 4096)]
      congr 1
      omega
  rw [hsplit, FramePool.available_eq, h.upTo, ← hlength]
  unfold Registry.size
  omega

end Kernel

/-! ### New processes -/

/-- The stack slots of an identifier exist, and are at addresses. -/
def StackMap.HasSlots (map : StackMap) (id : ProcessId) : Prop :=
  ∃ user kernel userStack kernelStack, map.userStack? id = some user ∧
    map.kernelStack? id = some kernel ∧ AddressSpace.slotAddress user = .ok userStack ∧
      AddressSpace.slotAddress kernel = .ok kernelStack

namespace Kernel

variable {k : Kernel} {id : ProcessId} {map : StackMap}

/-- With an identifier and its stack slots at hand, all depends on there being a frame. -/
theorem create_of_slots (hid : k.nextId? = some id) (hslots : map.HasSlots id) (entry : VirtAddr)
    (privileged : Bool) :
    ((k.create entry map privileged).map fun r => r.1.id) =
      if k.frames.available = 0 then .error .insufficientMemory else .ok id := by
  obtain ⟨user, kernel, userStack, kernelStack, huser, hkernel, husable, hkusable⟩ := hslots
  have hroom : k.frames.take?.isSome ↔ k.frames.available ≠ 0 := FramePool.isSome_take?_iff
  unfold create AddressSpace.allocate
  rw [hid]
  simp only [huser, hkernel, husable, hkusable]
  cases htake : k.frames.take? with
  | none =>
    have hnone : k.frames.available = 0 := by
      by_contra hne
      rw [htake] at hroom
      cases hroom.2 hne
    rw [if_pos hnone]
    rfl
  | some r =>
    rw [if_neg (hroom.1 (by rw [htake]; rfl))]
    rfl

end Kernel

namespace Machine

variable {m n : Machine} {first : Word} {limit : PhysAddr} {count : Nat}

theorem issues_lasts (h : m.Lasts n) (hm : m.kernel.Issues first limit count) :
    n.kernel.Issues first limit count := by
  refine hm.of_perm (by rw [h.frames]) (by rw [h.frames]) ?_
  unfold Kernel.issued
  rw [h.frames]
  exact (Registry.directories_of_rel (h.processes.imp Process.Lasting.directory)).append_right _

/-- Whoever comes takes a frame along that was free, and whoever goes leaves his behind. -/
theorem issues_turnover {a : Action} (h : m.Turnover a n)
    (hm : m.kernel.Issues first limit count) : ∃ count', n.kernel.Issues first limit count' := by
  cases h with
  | same hn => exact ⟨count, issues_lasts hn hm⟩
  | @born _ _ _ p k parent hk _ hn =>
    obtain ⟨count', hcreated⟩ := hm.create hk
    have hparent : (k.processes.modify p.id (Process.setParent parent)).directories.Perm
        k.processes.directories :=
      Registry.directories_of_rel (Registry.rel_modify
        (R := fun p q => q.space.pageDirectory = p.space.pageDirectory) (fun _ => rfl) _
        fun _ _ => rfl)
    exact ⟨count', issues_lasts hn (hcreated.of_perm rfl rfl (hparent.append_right _))⟩
  | ended hk hn => exact ⟨count, issues_lasts hn (hm.remove hk)⟩
  | released hw hn => exact ⟨count, issues_lasts hn (issues_lasts hw hm).releaseAll⟩

theorem issues_acts {as : List Action} :
    ∀ {m n : Machine} {count : Nat}, m.kernel.Issues first limit count → m.acts as = .done n () →
      ∃ count', n.kernel.Issues first limit count' := by
  induction as with
  | nil =>
    intro m n count hm h
    cases h
    exact ⟨count, hm⟩
  | cons a rest ih =>
    intro m n count hm h
    obtain ⟨w, u, hw, hn⟩ := Outcome.andThen_eq_done_iff.1 h
    obtain ⟨count', hcount⟩ := issues_turnover (turnover_acted (act_done hw)) hm
    exact ih hcount hn

/-- Whatever is done to a kernel over the whole frames of a range: no two processes have the same
page directory, each is one of these frames, none of them is free, no frame is free twice, and the
free frames and the processes are together as many as there are frames. Where an identifier and its
stack slots are found, booting and spawning succeed exactly if a frame is free. -/
theorem frames_conserved {config : Config} {start : PhysAddr} {pool : FramePool} {timed : Bool}
    {kernel : Kernel} {as : List Action} (hpool : FramePool.ofRange? start limit = some pool)
    (hkernel : Kernel.build config pool timed = .ok kernel)
    (hrun : (Machine.start kernel).acts as = .done m ()) :
    ∃ first, start.alignUp? = some first ∧
      (first.word.toNat % 4096 = 0 ∧ start.word.toNat ≤ first.word.toNat ∧
        first.word.toNat < start.word.toNat + 4096) ∧
      (∀ i j p q, m.kernel.processes.get? i = some p → m.kernel.processes.get? j = some q →
        p.space.pageDirectory = q.space.pageDirectory → i = j) ∧
      (∀ i p, m.kernel.processes.get? i = some p →
        p.space.pageDirectory.word.toNat % 4096 = 0 ∧
        first.word.toNat ≤ p.space.pageDirectory.word.toNat ∧
        p.space.pageDirectory.word.toNat + 4096 ≤ limit.word.toNat ∧
        p.space.pageDirectory ∉ m.kernel.frames.free) ∧
      m.kernel.frames.free.Nodup ∧
      m.kernel.frames.available + m.kernel.processes.size =
        (limit.word.toNat - first.word.toNat) / 4096 ∧
      ∀ id, m.kernel.nextId? = some id → m.kernel.config.stackMap.HasSlots id →
        (∀ entry, ∃ n, m.withKernel (fun m => m.boot entry) = .done n
          (if m.kernel.frames.available = 0 then .error .insufficientMemory else .ok id)) ∧
        ∀ q target entry, m.asked q = some (target, .spawn entry) →
          ∃ n, m.withKernel (fun m => m.serve q) = .done n
            (.ready (if m.kernel.frames.available = 0 then .error .outOfMemory
              else .value id)) := by
  obtain ⟨first, hfirst, hstart⟩ := Kernel.issues_of_build hpool hkernel
  obtain ⟨count, hissues⟩ := issues_acts (m := .start kernel) hstart hrun
  obtain ⟨haligned, hbounds⟩ := PhysAddr.alignUp?_eq_some hfirst
  have hl := locks_of_reachable ((Reachable.start hkernel).acts hrun)
  obtain ⟨hdirectories, hfree, hapart⟩ := List.nodup_append.1 hissues.nodup
  refine ⟨first, hfirst, ⟨haligned, hbounds⟩, fun i j p q hp hq he => ?_, fun i p hp => ?_, hfree,
    hissues.available, fun id hid hslots => ⟨fun entry => ?_, fun q target entry hasked => ?_⟩⟩
  · obtain ⟨hpmem, rfl⟩ := Registry.get?_eq_some_iff.1 hp
    obtain ⟨hqmem, rfl⟩ := Registry.get?_eq_some_iff.1 hq
    rw [List.inj_on_of_nodup_map hdirectories hpmem hqmem he]
  · have hmem : p.space.pageDirectory ∈ m.kernel.processes.directories :=
      List.mem_map_of_mem (Registry.get?_eq_some_iff.1 hp).1
    obtain ⟨j, hj, hword⟩ := hissues.mem (List.mem_append_left _ hmem)
    have hnext := hissues.next
    have hroom := hissues.room.resolve_left (by omega)
    exact ⟨by omega, by omega, by omega, fun hf => hapart _ hmem _ hf rfl⟩
  · obtain ⟨n, hn⟩ := withKernel_boot hl entry
    exact ⟨n, hn.trans (by rw [Kernel.create_of_slots hid hslots])⟩
  · obtain ⟨n, hn⟩ := withKernel_spawn hl hasked
    refine ⟨n, hn.trans ?_⟩
    rw [Reply.ofCreation_eq, Kernel.create_of_slots hid hslots]
    by_cases hnone : m.kernel.frames.available = 0
    · simp only [if_pos hnone]
      rfl
    · simp only [if_neg hnone]

/-- A range with two whole frames in it, neither end of which is at a frame. -/
def narrowStart : PhysAddr where
  word := 0x100800
  inRange := by decide

def narrowLimit : PhysAddr where
  word := 0x103800
  inRange := by decide

/-- The second process ends itself, and the next one gets its identifier and its frame. -/
def replaced : List Action :=
  .boot trialEntry :: calls 0 .spawn 0x2000 ++ calls 0 .spawn 0x3000 ++ calls 2 .kill 0 ++
    calls 0 .spawn 0x3000

/-- Both frames are out, so there is none for a third process. -/
theorem frames_conserved_narrow : ∃ pool kernel m n,
    FramePool.ofRange? narrowStart narrowLimit = some pool ∧
    Kernel.build .standard pool true = .ok kernel ∧
    (Machine.start kernel).acts replaced = .done m () ∧
    m.kernel.frames.available + m.kernel.processes.size = 2 ∧ m.kernel.processes.size = 2 ∧
    m.withKernel (fun m => m.boot trialEntry) = .done n (.error .insufficientMemory) := by
  obtain ⟨pool, hpool⟩ : ∃ pool, FramePool.ofRange? narrowStart narrowLimit = some pool :=
    ⟨_, rfl⟩
  obtain ⟨kernel, hk⟩ : ∃ kernel, Kernel.build .standard pool true = .ok kernel := ⟨_, rfl⟩
  obtain ⟨m, hm, hcheck⟩ := Outcome.exists_of_endsIn ((start kernel).acts replaced)
    (fun m => m.kernel.config == .standard && m.kernel.nextId? == some 3 &&
      m.kernel.frames.available == 0 && m.kernel.processes.size == 2)
    (by cases hpool; cases hk; decide +kernel)
  simp only [Bool.and_eq_true, beq_iff_eq] at hcheck
  obtain ⟨⟨⟨hconfig, hid⟩, hnone⟩, hsize⟩ := hcheck
  obtain ⟨first, hfirst, _, _, _, _, hcount, hnew⟩ := frames_conserved hpool hk hm
  have hslots : m.kernel.config.stackMap.HasSlots 3 := by
    rw [hconfig]
    exact ⟨_, _, _, _, rfl, rfl, rfl, rfl⟩
  obtain ⟨n, hn⟩ := (hnew 3 hid hslots).1 trialEntry
  rw [if_pos hnone] at hn
  refine ⟨pool, kernel, m, n, hpool, hk, hm, ?_, hsize, hn⟩
  rw [hcount]
  cases hfirst
  decide

end Machine
end Nucleus
