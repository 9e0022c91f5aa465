import Nucleus.Proofs.Lineage
import Nucleus.Proofs.Waits

/-!
# Nucleus.Proofs.Hooks

How long a hook lives. It is registered by a request for a process that exists, and it goes with
that process; so does what it has announced and nobody has got yet, for the decision that follows
the end of a process empties the inbox while there is nobody to get it. Identifiers are used again,
and only for this reason does a new process inherit nothing. The release of all processes makes no
decision, so the inbox survives it.

* `Traffic.Unnamed`: neither a hook nor a waiting event names an identifier.
* `unnamed_of_ended`: nothing names a process that has just ended.
* `unnamed_of_free`: before any release, nothing names an identifier that no process has.
* `Machine.Hooked`: a hook was registered for the process that its owner's identifier stands for.
* `hook_lifetime`: all hooks are of that kind, at all times.
-/

namespace Nucleus

namespace Traffic

/-- Neither a hook nor an event in the inbox names the identifier. -/
structure Unnamed (s : Traffic) (id : ProcessId) : Prop where
  hooks : ∀ g ∈ s.hooks, g.owner ≠ id
  pending : ∀ item ∈ s.inbox.pending, item.1 ≠ id

variable {s t u : Traffic} {d : Deed} {id : ProcessId} {g : Hook}

/-! ### What names a process -/

/-- Hooks come from requests for them. -/
theorem mem_hooks_step (hs : s.Step d t) (hg : g ∈ t.hooks) :
    g ∈ s.hooks ∨ d = .hook g.line g.owner := by
  cases hs with
  | hooked hp =>
    rcases List.mem_append.1 hg with hg | hg
    · exact .inl hg
    · rw [List.mem_singleton.1 hg]
      exact .inr rfl
  | _ => exact .inl hg

/-- Events in the inbox come from hooks. -/
theorem mem_pending_step {item : ProcessId × Event} (hs : s.Step d t)
    (hi : item ∈ t.inbox.pending) : item ∈ s.inbox.pending ∨ ∃ g ∈ s.hooks, g.owner = item.1 := by
  cases hs with
  | @announced g hg hroom =>
    replace hi : item ∈ (s.inbox.push g.owner (.interrupt g.line)).pending := hi
    rw [pending_push hroom] at hi
    rcases List.mem_append.1 hi with hi | hi
    · exact .inl hi
    · rw [List.mem_singleton.1 hi]
      exact .inr ⟨g, hg, rfl⟩
  | @inboxFull g hg hroom =>
    replace hi : item ∈ (s.inbox.push g.owner (.interrupt g.line)).pending := hi
    rw [pending_push_full hroom] at hi
    exact .inl hi
  | handed => exact .inl (List.mem_of_mem_tail hi)
  | _ => exact .inl hi

theorem Unnamed.step (h : s.Unnamed id) (hs : s.Step d t) (hd : ∀ line, d ≠ .hook line id) :
    t.Unnamed id := by
  refine ⟨fun g hg => ?_, fun item hi => ?_⟩
  · rcases mem_hooks_step hs hg with hg | rfl
    · exact h.hooks g hg
    · rintro rfl
      exact hd _ rfl
  · rcases mem_pending_step hs hi with hi | ⟨g, hg, hitem⟩
    · exact h.pending item hi
    · exact hitem ▸ h.hooks g hg

theorem Unnamed.calm (h : s.Unnamed id) (hc : s.Calm t) : t.Unnamed id :=
  hc.invariant (P := fun t => t.Unnamed id) (fun ht hs => ht.step hs fun _ => by rintro ⟨⟩) h

theorem hooks_calm (hc : s.Calm t) (hg : g ∈ t.hooks) : g ∈ s.hooks := by
  refine hc.invariant (P := fun t => g ∈ t.hooks → g ∈ s.hooks) (fun ht hs hg => ?_) id hg
  rcases mem_hooks_step hs hg with hg | hd
  · exact ht hg
  · cases hd

theorem hooks_unhookAll_subset (ids : List ProcessId) :
    ∀ s : Traffic, (s.unhookAll ids).hooks ⊆ s.hooks := by
  induction ids with
  | nil => exact fun s => List.Subset.refl _
  | cons id rest ih =>
    intro s
    have hfirst : (s.unhook id).hooks ⊆ s.hooks := by
      rw [hooks_unhook]
      exact List.filter_subset_self _
    exact fun g hg => hfirst (ih _ hg)

/-- A hook that is there after a move was there before, unless the move was a request for it. -/
theorem mem_hooks_move (hm : s.Move d u) (hg : g ∈ u.hooks) :
    g ∈ s.hooks ∨ d = .hook g.line g.owner := by
  cases hm with
  | quiet hu => exact .inl (hooks_calm hu.calm hg)
  | ticked hu => exact .inl (hooks_calm hu hg)
  | asked _ ht hv hu =>
    rcases mem_hooks_step hv (hooks_calm hu.calm hg) with hg | hd
    · exact .inl (hooks_calm ht.calm hg)
    · exact .inr hd
  | @created _ t _ p entry ht _ _ hu =>
    have hcreated : g ∈ (t.create p entry).hooks := hooks_calm hu.calm hg
    exact .inl (hooks_calm ht.calm hcreated)
  | ended ht _ hv _ hu =>
    replace hg := hooks_calm hv.calm (hooks_calm hu.calm hg)
    rw [hooks_finish] at hg
    exact .inl (hooks_calm ht.calm (List.mem_filter.1 hg).1)
  | @released _ t _ ht hu =>
    replace hg : g ∈ t.release.hooks := hooks_calm hu.calm hg
    exact .inl (hooks_calm ht.calm (hooks_unhookAll_subset _ t hg))

/-! ### Identifiers that nothing names -/

/-- Nothing names a process that has just ended. -/
theorem unnamed_of_ended (hm : s.Move (.finish id) u) : u.Unnamed id ∧ ¬ u.Has id := by
  cases hm with
  | asked _ _ hv => cases hv
  | @ended s t v u p id status ht hp hv hnone hu =>
    have hunhooked : ∀ g ∈ v.hooks, g.owner ≠ id := by
      intro g hg
      replace hg := hooks_calm hv.calm hg
      rw [hooks_finish] at hg
      exact bne_iff_ne.1 (List.mem_filter.1 hg).2
    -- The inbox is emptied when the hooks are gone already.
    have hv' : v.Unnamed id := ⟨hunhooked, fun item hi => by simp [hnone] at hi⟩
    exact ⟨hv'.calm hu.calm, not_has_ended (hv.trans hu).calm⟩

/-- Before any release, nothing names an identifier that no process has. -/
theorem unnamed_of_free (h : s.Settled) (hr : releases s.journal = 0) (hid : ¬ s.Has id) :
    s.Unnamed id := by
  refine ⟨fun g hg => ?_, fun item hi => ?_⟩
  · rintro rfl
    exact hid (h.hooks g hg)
  · rw [h.sound.pending] at hi
    obtain ⟨a, ha, rfl⟩ := List.mem_map.1 hi
    rintro rfl
    rcases h.pending a ha with hhas | hlt
    · exact hid hhas
    · omega

/-- Registering a process names nothing. -/
theorem Unnamed.created {j : ProcessId} (h : s.Unnamed id) (hm : s.Move (.create j) u) :
    u.Unnamed id := by
  cases hm with
  | asked _ _ hv => cases hv
  | @created _ t _ p entry ht _ _ hu =>
    have ht' := h.calm ht.calm
    have hcreated : (t.create p entry).Unnamed id := ⟨ht'.hooks, ht'.pending⟩
    exact hcreated.calm hu.calm

/-- All processes are released only where that is asked for. -/
theorem releases_move (hm : s.Move d u) (hd : d ≠ .release) :
    releases u.journal = releases s.journal := by
  have hcalm : ∀ {s t : Traffic}, s.Calm t → releases t.journal = releases s.journal :=
    fun {s t} hc => hc.invariant (P := fun t => releases t.journal = releases s.journal)
      (fun ht hs => (releases_step hs).trans ht) rfl
  cases hm with
  | quiet hu => exact hcalm hu.calm
  | ticked hu => exact hcalm hu
  | asked _ ht hv hu => exact (hcalm hu.calm).trans ((releases_step hv).trans (hcalm ht.calm))
  | created ht _ _ hu =>
    rw [hcalm hu.calm, ← hcalm ht.calm]
    exact releases_cons rfl
  | ended ht _ hv _ hu =>
    rw [hcalm hu.calm, hcalm hv.calm, ← hcalm ht.calm]
    exact (releases_unhook _ _).trans (releases_cons rfl)
  | released => exact absurd rfl hd

end Traffic

namespace Machine

variable {m n : Machine} {a : Action} {as : List Action} {id target : ProcessId} {g : Hook}

/-! ### Registrations -/

/-- A request for a hook that is granted. -/
structure Hooks (s t : Machine) (g : Hook) : Prop where
  reachable : Reachable s
  act : s.act .request = .done t ()
  asked : s.asked s.frame.request = some (g.owner, .watchLine g.line)
  line : g.line < s.kernel.devices.vectors.lines
  owner : ∃ p, s.kernel.processes.get? g.owner = some p

/-- The hook was asked for, and no other process was created under its owner's identifier since
then. -/
def Hooked (m : Machine) (g : Hook) : Prop :=
  ∃ (s t : Machine) (as : List Action), s.Hooks t g ∧ t.acts as = .done m () ∧
    incarnation g.owner m.journal = incarnation g.owner s.journal

theorem deed_eq_hook {line : Word} (h : m.deed a = .hook line id) :
    a = .request ∧ m.asked m.frame.request = some (id, .watchLine line) ∧
      line < m.kernel.devices.vectors.lines := by
  have hcomes := m.deed_comesTo a
  rw [h] at hcomes
  cases hcomes with
  | @request p target op _ _ hasked hop =>
    have hop' := m.kernel.deed_comesTo p.id target op
    rw [hop] at hop'
    cases hop'
    rw [Kernel.deed_watchLine] at hop
    split at hop
    · rename_i hline
      exact ⟨rfl, hasked, hline⟩
    · cases hop

theorem deed_eq_release (h : m.deed a = .release) : a = .shutdown := by
  have hcomes := m.deed_comesTo a
  rw [h] at hcomes
  cases hcomes with
  | shutdown => rfl
  | @request p target op _ _ _ hop =>
    have hop' := m.kernel.deed_comesTo p.id target op
    rw [hop] at hop'
    cases hop'

/-- The target of a request that is understood exists. -/
theorem has_target {q : Request} {op : Operation} (h : m.asked q = some (target, op)) :
    m.traffic.Has target := by
  obtain ⟨p, code, hp, _, hu⟩ := asked_eq_some h
  exact Option.isSome_iff_exists.1 (isSome_of_understand (isSome_of_currentProcess? hp) hu)

theorem Hooked.act (hm : Reachable m) (h : m.Hooked g) (ha : m.act a = .done n ())
    (howner : m.traffic.Has g.owner) : n.Hooked g := by
  obtain ⟨s, t, as, hhooks, has, hsame⟩ := h
  exact ⟨s, t, as ++ [a], hhooks, acts_append has ha,
    (incarnation_kept hm ha fun _ => howner).trans hsame⟩

/-- Every hook was asked for by a request for the process that its owner's identifier stands
for. -/
theorem hooked_of_reachable (hm : Reachable m) :
    ∀ g ∈ m.kernel.devices.vectors.hooks, m.Hooked g := by
  induction hm with
  | start hk =>
    unfold Kernel.build at hk
    split at hk
    · cases hk
    · cases hk
      rintro g ⟨⟩
  | @act m n a hm ha ih =>
    intro g hg
    have hmoved := moved_act (bound_of_reachable hm) ha
    rcases Traffic.mem_hooks_move hmoved.traffic hg with hold | hdeed
    · exact (ih g hold).act hm ha ((settled_of_reachable hm).hooks g hold)
    · obtain ⟨rfl, hasked, hline⟩ := deed_eq_hook hdeed
      have howner := has_target hasked
      exact ⟨m, n, [], ⟨hm, ha, hasked, hline, howner⟩, rfl, incarnation_kept hm ha fun _ => howner⟩

/-! ### Ends and beginnings -/

/-- After the end of a process nothing names it. -/
theorem unnamed_of_kill {status : Word} (hm : Reachable m)
    (hasked : m.asked m.frame.request = some (target, .kill status))
    (h : m.act .request = .done n ()) :
    n.kernel.processes.get? target = none ∧ n.kernel.current ≠ some target ∧
      n.traffic.Unnamed target ∧
      ∀ j p, n.kernel.processes.get? j = some p → p.waitTarget ≠ some target := by
  have hb := bound_of_reachable hm
  obtain ⟨p, _, hp, _⟩ := asked_eq_some hasked
  have hmoved := (moved_act hb h).traffic
  rw [deed_request hp hasked] at hmoved
  obtain ⟨hunnamed, hgone⟩ := Traffic.unnamed_of_ended hmoved
  have hn := hm.act h
  refine ⟨Option.eq_none_iff_forall_ne_some.2 fun q hq => hgone ⟨q, hq⟩, fun hc => ?_, hunnamed,
    fun j q hq ht => ?_⟩
  · exact hgone ((bound_of_reachable hn).current hc)
  · exact hgone ((waits_of_reachable hn).target hq ht).2

theorem releases_act (hm : Reachable m) (h : m.act a = .done n ()) (ha : a ≠ .shutdown) :
    releases n.journal = releases m.journal :=
  Traffic.releases_move (moved_act (bound_of_reachable hm) h).traffic fun hd =>
    ha (deed_eq_release hd)

theorem completion?_eq_some {c : Completion}
    (h : m.withKernel (fun w => w.serve m.frame.request) = .done n c) : m.completion? = some c := by
  have hsame : (m.withKernel fun w => w.serve w.frame.request) =
      m.withKernel fun w => w.serve m.frame.request := by
    unfold withKernel withSlot
    rfl
  unfold completion?
  rw [hsame, h]

/-- What a request to spawn returns is the identifier of no process. -/
theorem not_has_of_spawned (hm : Reachable m) {entry : VirtAddr}
    (hasked : m.asked m.frame.request = some (target, .spawn entry))
    (hc : m.completion? = some (.ready (.value id))) :
    ¬ m.traffic.Has id ∧ m.kernel.creation entry false = .create id := by
  obtain ⟨n, hn⟩ := withKernel_spawn (locks_of_reachable hm) hasked
  have hsome := (completion?_eq_some hn).symm.trans hc
  have hvalue := Completion.ready.inj (Option.some.inj hsome)
  unfold Kernel.creation
  cases hk : m.kernel.create entry m.kernel.config.stackMap false with
  | error e =>
    rw [hk] at hvalue
    cases hvalue
  | ok r =>
    obtain ⟨p, k⟩ := r
    rw [hk] at hvalue
    cases hvalue
    obtain ⟨_, hid, _⟩ := Kernel.create_eq_ok hk
    refine ⟨?_, rfl⟩
    rintro ⟨q, hq⟩
    have hfree := (Kernel.leastFreeId_of_nextId? hid).1.unregistered
    cases hfree.symm.trans hq

/-- As long as there was no release, nothing names the identifier that a request to spawn
returns. -/
theorem unnamed_of_spawn (hm : Reachable m) (hr : releases m.journal = 0) {entry : VirtAddr}
    (hasked : m.asked m.frame.request = some (target, .spawn entry))
    (hc : m.completion? = some (.ready (.value id))) (h : m.act .request = .done n ()) :
    m.traffic.Unnamed id ∧ n.traffic.Unnamed id := by
  obtain ⟨hfree, hcreation⟩ := not_has_of_spawned hm hasked hc
  obtain ⟨p, _, hp, _⟩ := asked_eq_some hasked
  have hmoved := (moved_act (bound_of_reachable hm) h).traffic
  rw [deed_request hp hasked, Kernel.deed_spawn, hcreation] at hmoved
  have hunnamed := Traffic.unnamed_of_free (settled_of_reachable hm) hr hfree
  exact ⟨hunnamed, hunnamed.created hmoved⟩

/-- At all times every hook has an owner that is registered, and it was asked for by a request for
that very process. When a request to end a process returns, nothing names the process any more: not
a hook, not an event in the inbox, not a process that waits, not the CPU. So in a run without a
release, nothing names the identifier that a request to spawn returns. -/
theorem hook_lifetime {config : Config} {pool : FramePool} {timed : Bool} {kernel : Kernel}
    (hk : Kernel.build config pool timed = .ok kernel) (h : (start kernel).acts as = .done m ()) :
    (∀ g ∈ m.kernel.devices.vectors.hooks,
      (∃ p, m.kernel.processes.get? g.owner = some p) ∧ m.Hooked g) ∧
    (∀ target status n, m.asked m.frame.request = some (target, .kill status) →
      m.act .request = .done n () →
        n.kernel.processes.get? target = none ∧ n.kernel.current ≠ some target ∧
        n.traffic.Unnamed target ∧
        ∀ j p, n.kernel.processes.get? j = some p → p.waitTarget ≠ some target) ∧
    (.shutdown ∉ as → ∀ target entry id n,
      m.asked m.frame.request = some (target, .spawn entry) →
      m.completion? = some (.ready (.value id)) → m.act .request = .done n () →
        m.traffic.Unnamed id ∧ n.traffic.Unnamed id) := by
  have hm := (Reachable.start hk).acts h
  refine ⟨fun g hg => ⟨(settled_of_reachable hm).hooks g hg, hooked_of_reachable hm g hg⟩,
    fun target status n => unnamed_of_kill hm, fun hnone target entry id n => ?_⟩
  have hreleases : releases m.journal = 0 := by
    refine Reachable.kept (P := fun m => releases m.journal = 0) ?_ (.start hk) rfl h
    intro m n a ha hm hr hact
    rw [releases_act hm hact fun heq => hnone (heq ▸ ha)]
    exact hr
  exact unnamed_of_spawn hm hreleases

/-- The first process watches a line on behalf of the second one, which is about to be ended while
an event for it is under way. -/
def orphanedHook : List Action :=
  .boot trialEntry :: calls 0 .spawn 0x2000 ++ calls 2 .watchLine 1 ++
    [.arrival (.interrupt 33), .compute (asking 2 .kill 0) .zeroed []]

/-- The first process spawns another one, which gets the identifier of the one that ended. -/
def replacement : List Action :=
  .request :: [.compute (asking 0 .spawn 0x3000) .zeroed []]

/-- Hook and event go with the second process, and the next one with its identifier inherits
neither. -/
theorem hook_lifetime_orphaned : ∃ m n o p,
    trial orphanedHook = .done m () ∧
    m.kernel.devices.vectors.hooks = [⟨1, 2⟩] ∧ m.Hooked ⟨1, 2⟩ ∧
    m.kernel.devices.inbox.pending = [(2, .interrupt 1)] ∧
    m.act .request = .done n () ∧ n.kernel.processes.get? 2 = none ∧ n.traffic.Unnamed 2 ∧
    trial (orphanedHook ++ replacement) = .done o () ∧
    o.completion? = some (.ready (.value 2)) ∧ o.act .request = .done p () ∧
    p.traffic.Unnamed 2 := by
  obtain ⟨m, hm, hcheck⟩ := Outcome.exists_of_endsIn (trial orphanedHook)
    (fun m => m.kernel.devices.vectors.hooks == [⟨1, 2⟩] &&
      m.kernel.devices.inbox.pending == [(2, .interrupt 1)] &&
      m.asked m.frame.request == some (2, .kill 0) && (m.act .request).endsIn fun _ => true)
    (by decide +kernel)
  obtain ⟨o, ho, hcheck'⟩ := Outcome.exists_of_endsIn (trial (orphanedHook ++ replacement))
    (fun o => o.asked o.frame.request == some (1, .spawn ⟨0x3000, by decide⟩) &&
      o.completion? == some (.ready (.value 2)) && (o.act .request).endsIn fun _ => true)
    (by decide +kernel)
  simp only [Bool.and_eq_true, beq_iff_eq] at hcheck hcheck'
  obtain ⟨⟨⟨hhooks, hpending⟩, hkill⟩, hends⟩ := hcheck
  obtain ⟨⟨hspawn, hvalue⟩, hends'⟩ := hcheck'
  obtain ⟨n, hn, _⟩ := Outcome.exists_of_endsIn _ _ hends
  obtain ⟨p, hp, _⟩ := Outcome.exists_of_endsIn _ _ hends'
  obtain ⟨kernel, hk, hacts⟩ := exists_of_trial hm
  obtain ⟨kernel', hk', hacts'⟩ := exists_of_trial ho
  obtain ⟨howned, hended, _⟩ := hook_lifetime hk hacts
  obtain ⟨_, _, hspawned⟩ := hook_lifetime hk' hacts'
  obtain ⟨_, hhooked⟩ := howned ⟨1, 2⟩ (by simp [hhooks])
  obtain ⟨hgone, _, hunnamed, _⟩ := hended 2 0 n hkill hn
  obtain ⟨_, hunnamed'⟩ := hspawned (by decide) _ _ 2 p hspawn hvalue hp
  exact ⟨m, n, o, p, hm, hhooks, hhooked, hpending, hn, hgone, hunnamed, ho, hvalue, hp, hunnamed'⟩

end Machine
end Nucleus
