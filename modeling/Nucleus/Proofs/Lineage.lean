import Nucleus.Proofs.Bypass
import Nucleus.Proofs.Population
import Nucleus.Proofs.Provenance

/-!
# Nucleus.Proofs.Lineage

Identifiers and parents. A process names its parent by an identifier, and identifiers are used
again. That a child is never taken for somebody else's is due to one thing: while a process names a
parent, no new process gets that identifier, whether or not the parent still exists.

* `incarnation_act`: an action begins another incarnation of an identifier exactly if it registers
  a process under it.
* `Machine.Descends`: the process under an identifier was spawned by the very incarnation that its
  parent's identifier stands for.
* `lineage`: this holds of every process that has a parent, and new processes get the least free
  identifier.
-/

namespace Nucleus

/-! ### Incarnations -/

namespace Traffic

variable {s t u : Traffic} {d : Deed} {id : ProcessId}

theorem creates_aside {n : Note} (h : n.isAside = true) : n.creates id = false := by
  cases n <;> first | rfl | cases h

theorem incarnation_step (hs : s.Step d t) : incarnation id t.journal = incarnation id s.journal := by
  cases hs with
  | untold => rfl
  | aside hn => exact incarnation_cons (creates_aside hn)
  | @handed owner e rest hp =>
    show incarnation id ((s.processes.deliveryNotes owner e).reverse ++ s.journal) = _
    unfold Registry.deliveryNotes
    split
    · exact incarnation_cons rfl
    · refine (incarnation_cons rfl).trans (incarnation_cons ?_)
      split <;> rfl
  | expired =>
    exact read_expiryNotes (f := incarnation id) (fun _ _ => incarnation_cons rfl) _ _ _
  | ticked => rfl
  | slept => rfl
  | paused => rfl
  | _ => exact incarnation_cons rfl

theorem calm_incarnation (h : s.Calm t) : incarnation id t.journal = incarnation id s.journal :=
  h.invariant (P := fun t => incarnation id t.journal = incarnation id s.journal)
    (fun ht hs => (incarnation_step hs).trans ht) rfl

theorem incarnation_unhook (s : Traffic) (j : ProcessId) :
    incarnation id (s.unhook j).journal = incarnation id s.journal := by
  unfold unhook
  simp only
  split
  · exact incarnation_cons rfl
  · rfl

theorem incarnation_unhookAll (ids : List ProcessId) :
    ∀ s : Traffic, incarnation id (s.unhookAll ids).journal = incarnation id s.journal := by
  induction ids with
  | nil => exact fun _ => rfl
  | cons j rest ih => exact fun s => (ih _).trans (s.incarnation_unhook j)

/-- A process is registered under the identifier, where there was none. -/
def Begins (s u : Traffic) (id : ProcessId) : Prop :=
  u.Has id ∧ ¬ s.Has id

theorem not_begins (h : u.Has id → s.Has id) : ¬ s.Begins u id :=
  fun hb => hb.2 (h hb.1)

/-- A move begins another incarnation exactly of the identifier under which it registers a
process. -/
theorem incarnation_move (hm : s.Move d u) (id : ProcessId) :
    s.Begins u id ∧ incarnation id u.journal = incarnation id s.journal + 1 ∨
      ¬ s.Begins u id ∧ incarnation id u.journal = incarnation id s.journal := by
  cases hm with
  | quiet hu => exact .inr ⟨not_begins (calm_has hu.calm).1, calm_incarnation hu.calm⟩
  | ticked hu => exact .inr ⟨not_begins (calm_has hu).1, calm_incarnation hu⟩
  | asked _ ht hv hu =>
    refine .inr ⟨not_begins fun h => ?_, ?_⟩
    · exact (calm_has ht.calm).1 ((has_step hv).1 ((calm_has hu.calm).1 h))
    · exact (calm_incarnation hu.calm).trans
        ((incarnation_step hv).trans (calm_incarnation ht.calm))
  | @created s t u p entry ht hfresh _ hu =>
    have hhas : u.Has id ↔ ∃ q, (t.processes.insert p).get? id = some q := calm_has hu.calm
    rw [calm_incarnation hu.calm, ← calm_incarnation ht.calm]
    rw [Registry.get?_insert] at hhas
    by_cases hid : p.id = id
    · subst hid
      refine .inl ⟨⟨hhas.2 ⟨p, if_pos rfl⟩, fun hs => ?_⟩, ?_⟩
      · obtain ⟨q, hq⟩ := (calm_has ht.calm).2 hs
        rw [hfresh] at hq
        cases hq
      · exact List.countP_cons_of_pos (beq_self_eq_true p.id)
    · rw [if_neg hid] at hhas
      exact .inr ⟨not_begins fun h => (calm_has ht.calm).1 (hhas.1 h),
        incarnation_cons (beq_false_of_ne hid)⟩
  | @ended s t v u p j status ht _ hv _ hu =>
    refine .inr ⟨not_begins fun h => ?_, ?_⟩
    · obtain ⟨q, hq⟩ := (calm_has hv.calm).1 ((calm_has hu.calm).1 h)
      rw [get?_finish] at hq
      split at hq
      · cases hq
      · exact (calm_has ht.calm).1 ⟨q, hq⟩
    · rw [calm_incarnation hu.calm, calm_incarnation hv.calm, ← calm_incarnation ht.calm]
      exact (incarnation_unhook _ j).trans (incarnation_cons rfl)
  | @released s t u ht hu =>
    refine .inr ⟨not_begins fun h => ?_, ?_⟩
    · obtain ⟨q, hq⟩ := (calm_has hu.calm).1 h
      cases hq
    · rw [calm_incarnation hu.calm, ← calm_incarnation ht.calm]
      exact (incarnation_cons rfl).trans (incarnation_unhookAll _ t)

end Traffic

namespace Machine

variable {m n : Machine} {a : Action} {id child parent : ProcessId}

/-- An action begins another incarnation of an identifier exactly if it registers a process under
it. -/
theorem incarnation_act (hm : Reachable m) (h : m.act a = .done n ()) (id : ProcessId) :
    m.traffic.Begins n.traffic id ∧ incarnation id n.journal = incarnation id m.journal + 1 ∨
      ¬ m.traffic.Begins n.traffic id ∧ incarnation id n.journal = incarnation id m.journal :=
  Traffic.incarnation_move (moved_act (bound_of_reachable hm) h).traffic id

theorem incarnation_kept (hm : Reachable m) (h : m.act a = .done n ())
    (hid : n.traffic.Has id → m.traffic.Has id) :
    incarnation id n.journal = incarnation id m.journal := by
  rcases incarnation_act hm h id with ⟨hb, _⟩ | ⟨_, he⟩
  · exact absurd hb (Traffic.not_begins hid)
  · exact he

theorem acts_append {as : List Action} :
    ∀ {m n o : Machine}, m.acts as = .done n () → n.act a = .done o () →
      m.acts (as ++ [a]) = .done o () := by
  induction as with
  | nil =>
    intro m n o h ha
    cases h
    show (m.act a).andThen _ = _
    rw [ha]
    rfl
  | cons b rest ih =>
    intro m n o h ha
    obtain ⟨w, u, hw, hn⟩ := Outcome.andThen_eq_done_iff.1 h
    exact Outcome.andThen_eq_done_iff.2 ⟨w, u, hw, ih hn ha⟩

/-! ### Parents -/

/-- A request of the process under `parent` to spawn, by which a process came under `child`. -/
structure Spawns (s t : Machine) (child parent : ProcessId) : Prop where
  reachable : Reachable s
  act : s.act .request = .done t ()
  asked : ∃ target entry, s.asked s.frame.request = some (target, .spawn entry)
  caller : s.kernel.current = some parent
  registered : ∃ q, s.kernel.processes.get? parent = some q
  fresh : s.kernel.processes.get? child = none
  born : ∃ p, t.kernel.processes.get? child = some p ∧ p.parent = parent

/-- The process under `child` was spawned by the process under `parent`, and no other process was
created under either identifier since then. -/
def Descends (m : Machine) (child parent : ProcessId) : Prop :=
  ∃ (s t : Machine) (as : List Action), s.Spawns t child parent ∧ t.acts as = .done m () ∧
    incarnation child m.journal = incarnation child t.journal ∧
    incarnation parent m.journal = incarnation parent s.journal

theorem Descends.act (hm : Reachable m) (h : m.Descends child parent)
    (ha : m.act a = .done n ()) (hchild : m.traffic.Has child)
    (hparent : n.traffic.Has parent → m.traffic.Has parent) : n.Descends child parent := by
  obtain ⟨s, t, as, hspawn, has, hc, hp⟩ := h
  exact ⟨s, t, as ++ [a], hspawn, acts_append has ha,
    (incarnation_kept hm ha fun _ => hchild).trans hc, (incarnation_kept hm ha hparent).trans hp⟩

/-- Every process that has a parent was spawned by the incarnation of it that there is, if any. -/
theorem descends_of_reachable (hm : Reachable m) :
    ∀ {id q}, m.kernel.processes.get? id = some q → q.parent ≠ .nobody →
      m.Descends id q.parent := by
  induction hm with
  | start hk =>
    intro id q hq
    cases ((Kernel.fresh_of_build hk).get? id).symm.trans hq
  | @act m n a hm ha ih =>
    have hturnover := turnover_acted (act_done ha)
    intro id q hq hne
    rcases hturnover.came hq with ⟨p, hp, hpq⟩ | ⟨hid, hbegets⟩
    · rw [hpq.parent] at hne ⊢
      refine (ih hp hne).act hm ha ⟨p, hp⟩ ?_
      rintro ⟨u, hu⟩
      rcases hturnover.came hu with ⟨o, ho, _⟩ | ⟨hparent, _⟩
      · exact ⟨o, ho⟩
      · -- While `p` names its parent, nobody gets that identifier.
        exact absurd rfl ((Kernel.leastFreeId_of_nextId? hparent).1.unnamed hp)
    · obtain ⟨hfree, _⟩ := Kernel.leastFreeId_of_nextId? hid
      generalize hparent : q.parent = parent at hbegets hne ⊢
      cases hbegets with
      | booted => exact absurd rfl hne
      | spawned hc hasked =>
        obtain ⟨o, ho⟩ := (bound_of_reachable hm).current hc
        have hspawn : m.Spawns n id parent :=
          ⟨hm, ha, ⟨_, _, hasked⟩, hc, ⟨o, ho⟩, hfree.unregistered, q, hq, hparent⟩
        exact ⟨m, n, [], hspawn, rfl, rfl, incarnation_kept hm ha fun _ => ⟨o, ho⟩⟩

/-- Every process is found under its own identifier, which lies between one and the limit, so that
zero names none. The parent of a process, if it is still there, is the incarnation that spawned it.
Booting and spawning give the least identifier that is free, and are refused for want of one exactly
if none is. -/
theorem lineage (hm : Reachable m) :
    (∀ p ∈ m.kernel.processes.toList, m.kernel.processes.get? p.id = some p ∧
      1 ≤ p.id.toNat ∧ p.id.toNat ≤ m.kernel.config.maxProcesses.toNat) ∧
    m.kernel.processes.get? .nobody = none ∧
    (∀ id p, m.kernel.processes.get? id = some p → p.parent ≠ .nobody → m.Descends id p.parent) ∧
    (∀ entry map privileged,
      (∀ p k, m.kernel.create entry map privileged = .ok (p, k) → m.kernel.LeastFreeId p.id) ∧
      (m.kernel.create entry map privileged = .error .outOfProcesses ↔
        ∀ id, ¬ m.kernel.FreeId id)) ∧
    (∀ entry, ∃ n, m.withKernel (fun m => m.boot entry) = .done n
      ((m.kernel.create entry m.kernel.config.stackMap true).map fun r => r.1.id)) ∧
    ∀ q target entry, m.asked q = some (target, .spawn entry) →
      ∃ n, m.withKernel (fun m => m.serve q) = .done n
        (.ready (.ofCreation (m.kernel.create entry m.kernel.config.stackMap false))) := by
  have hids : ∀ {id p}, m.kernel.processes.get? id = some p →
      1 ≤ id.toNat ∧ id.toNat ≤ m.kernel.config.maxProcesses.toNat := (sized_of_reachable hm).ids
  have hl := locks_of_reachable hm
  refine ⟨fun p hp => ?_, ?_, fun id p => descends_of_reachable hm, fun entry map privileged => ?_,
    withKernel_boot hl, fun q target entry => withKernel_spawn hl⟩
  · have hget := Registry.get?_eq_some_iff.2 ⟨hp, rfl⟩
    exact ⟨hget, hids hget⟩
  · cases hp : m.kernel.processes.get? .nobody with
    | none => rfl
    | some p => exact absurd (hids hp).1 (by decide)
  · refine ⟨fun p k hk => ?_, ?_⟩
    · obtain ⟨_, hid, _⟩ := Kernel.create_eq_ok hk
      exact Kernel.leastFreeId_of_nextId? hid
    · rw [Kernel.create_eq_outOfProcesses_iff, Kernel.nextId?_eq_none_iff hids]

/-- The second process spawns the third one and ends itself. -/
def orphaned : List Action :=
  .boot trialEntry :: calls 0 .spawn 0x2000 ++ calls 0 .yieldCpu 0 ++ calls 0 .spawn 0x3000 ++
    calls 0 .kill 0

/-- The identifier 2 stays out of use while the third process names it, so the next one is 4. -/
theorem lineage_orphaned : ∃ m p, trial orphaned = .done m () ∧
    m.kernel.processes.get? 3 = some p ∧ p.parent = 2 ∧ m.kernel.processes.get? 2 = none ∧
    m.Descends 3 2 ∧ m.kernel.LeastFreeId 4 ∧
    ∃ n, m.withKernel (fun m => m.boot trialEntry) = .done n (.ok 4) := by
  obtain ⟨m, hm, hcheck⟩ := Outcome.exists_of_endsIn (trial orphaned)
    (fun m => (m.kernel.processes.get? 3).any (fun p => p.parent == 2) &&
      (m.kernel.processes.get? 2).isNone &&
      match m.kernel.create trialEntry m.kernel.config.stackMap true with
      | .ok (p, _) => p.id == 4
      | .error _ => false)
    (by decide +kernel)
  simp only [Bool.and_eq_true, Option.any_eq_true, Option.isNone_iff_eq_none, beq_iff_eq] at hcheck
  obtain ⟨⟨⟨p, hp, hparent⟩, hgone⟩, hcreated⟩ := hcheck
  split at hcreated
  · rename_i q k hk
    obtain ⟨_, _, hdescends, hleast, hboot, _⟩ := lineage (.trial hm)
    have hdescent := hdescends 3 p hp (by rw [hparent]; decide)
    obtain ⟨n, hn⟩ := hboot trialEntry
    have hid : q.id = 4 := eq_of_beq hcreated
    rw [hk] at hn
    refine ⟨m, p, hm, hp, hparent, hgone, hparent ▸ hdescent, ?_, n, hn.trans ?_⟩
    · rw [← hid]
      exact (hleast _ _ _).1 q k hk
    · rw [← hid]
      rfl
  · cases hcreated

end Machine
end Nucleus
