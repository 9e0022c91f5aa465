import Nucleus.Proofs.Traffic

/-!
# Nucleus.Proofs.History

The traffic as the journal tells it: which announcements are under way, through which registrations
hooks are in place, what each process has in its queue. Read in this way a journal is lawful or not,
without a machine, and the way of an event can be read backwards in a lawful one: from its delivery
to the announcement that waited longest, and from there to the registration of the hook that made
it.

Identifiers are used again, so it matters whose event it is. `incarnation` counts the processes
that were created under an identifier.

* `Lawful`: each note is one that the notes before it allow.
* `current_of_lawful`: a hook was registered for the process that has its owner's identifier.
* `genuine_of_lawful`: an announcement was made by such a hook; and unless all processes are
  released meanwhile, its owner's identifier is still that process's.
-/

namespace Nucleus

namespace Note

def creates (id : ProcessId) : Note → Bool
  | created j _ _ => j == id
  | _ => false

def isRelease : Note → Bool
  | released _ => true
  | _ => false

/-- The event that wakes its owner, and the owner. -/
def handed? : Note → Option (ProcessId × Event)
  | delivered e owner => some (owner, e)
  | queueFull e owner => some (owner, e)
  | _ => none

end Note

/-- How many processes were created under an identifier. -/
def incarnation (id : ProcessId) (j : Journal) : Nat :=
  j.countP (Note.creates id)

/-- How often all processes were released at once. -/
def releases (j : Journal) : Nat :=
  j.countP Note.isRelease

/-- How many events were handed to whoever had the identifier, with room for them or without. -/
def heard (id : ProcessId) (j : Journal) : Nat :=
  j.countP fun n => n.handed?.any fun h => h.1 == id

/-- An event that was announced, after all that had been told before. -/
structure Announcement where
  owner : ProcessId
  event : Event
  past : Journal

/-- A hook that was registered, after all that had been told before. -/
structure Registration where
  hook : Hook
  past : Journal

/-- The announcements that nobody has got yet, the oldest first. -/
def announcements : Journal → List Announcement
  | [] => []
  | .announced e owner :: past => announcements past ++ [⟨owner, e, past⟩]
  | .delivered _ _ :: past => (announcements past).tail
  | .queueFull _ _ :: past => (announcements past).tail
  | .ownerMissing _ _ :: past => (announcements past).tail
  | _ :: past => announcements past

/-- The registrations that have not been taken back yet, the oldest first. -/
def registrations : Journal → List Registration
  | [] => []
  | .hooked line owner :: past => registrations past ++ [⟨⟨line, owner⟩, past⟩]
  | .unhooked _ owner :: past => (registrations past).filter fun r => r.hook.owner != owner
  | _ :: past => registrations past

/-- The events that the process with an identifier has got and not taken yet, the oldest first. -/
def queued (id : ProcessId) : Journal → List Event
  | [] => []
  | .created j _ _ :: past => if j = id then [] else queued id past
  | .delivered e owner :: past => if owner = id then queued id past ++ [e] else queued id past
  | .taken _ owner :: past => if owner = id then (queued id past).tail else queued id past
  | _ :: past => queued id past

/-- A hook on the line was registered for the process that has the identifier, at whatever time. -/
def watched (line : Word) (id : ProcessId) : Journal → Bool
  | [] => false
  | .created j _ _ :: past => if j = id then false else watched line id past
  | .hooked l owner :: past => l == line && owner == id || watched line id past
  | _ :: past => watched line id past

/-- What was told so far allows a note to follow. -/
def Note.Follows (past : Journal) : Note → Prop
  | .created id _ _ => (∀ r ∈ registrations past, r.hook.owner ≠ id) ∧
      ∀ a ∈ announcements past, a.owner = id → releases a.past < releases past
  | .announced e owner =>
      ∃ r ∈ registrations past, r.hook.owner = owner ∧ e = .interrupt r.hook.line
  | .delivered e owner =>
      ∃ a rest, announcements past = a :: rest ∧ a.owner = owner ∧ a.event = e
  | .queueFull e owner =>
      ∃ a rest, announcements past = a :: rest ∧ a.owner = owner ∧ a.event = e
  | _ => True

/-- Each note follows from what was told before it. -/
def Lawful : Journal → Prop
  | [] => True
  | n :: past => n.Follows past ∧ Lawful past

/-- The announcement was made by a hook that had been registered for the process that had its
owner's identifier at the time; and if all processes were not released since, that process has it
now. -/
structure Announcement.Genuine (a : Announcement) (now : Journal) : Prop where
  hook : ∃ r ∈ registrations a.past, r.hook.owner = a.owner ∧ a.event = .interrupt r.hook.line ∧
    incarnation a.owner r.past = incarnation a.owner a.past
  owner : releases a.past = releases now → incarnation a.owner a.past = incarnation a.owner now

theorem announcements_aside {n : Note} (h : n.isAside = true) (past : Journal) :
    announcements (n :: past) = announcements past := by
  cases n <;> first | rfl | cases h

theorem registrations_aside {n : Note} (h : n.isAside = true) (past : Journal) :
    registrations (n :: past) = registrations past := by
  cases n <;> first | rfl | cases h

theorem queued_aside {n : Note} (h : n.isAside = true) (id : ProcessId) (past : Journal) :
    queued id (n :: past) = queued id past := by
  cases n <;> first | rfl | cases h

theorem follows_aside {n : Note} (h : n.isAside = true) (past : Journal) : n.Follows past := by
  cases n <;> trivial

section Journal

variable {j past : Journal} {n : Note} {a : Announcement} {r : Registration} {id : ProcessId}

theorem releases_le (h : past <:+ j) : releases past ≤ releases j :=
  h.sublist.countP_le

theorem heard_le (h : past <:+ j) : heard id past ≤ heard id j :=
  h.sublist.countP_le

theorem past_of_mem_announcements (h : a ∈ announcements j) : a.past <:+ j := by
  induction j with
  | nil => cases h
  | cons n past ih =>
    cases n with
    | announced e owner =>
      rcases List.mem_append.1 h with h | h
      · exact (ih h).trans (List.suffix_cons _ _)
      · rw [List.mem_singleton.1 h]
        exact List.suffix_cons _ _
    | delivered e owner => exact (ih (List.mem_of_mem_tail h)).trans (List.suffix_cons _ _)
    | queueFull e owner => exact (ih (List.mem_of_mem_tail h)).trans (List.suffix_cons _ _)
    | ownerMissing e owner => exact (ih (List.mem_of_mem_tail h)).trans (List.suffix_cons _ _)
    | _ => exact (ih h).trans (List.suffix_cons _ _)

/-- No note but that of a creation begins another incarnation. -/
theorem incarnation_cons (h : n.creates id = false) :
    incarnation id (n :: past) = incarnation id past := by
  unfold incarnation
  rw [List.countP_cons_of_neg (ne_true_of_eq_false h)]

theorem releases_cons (h : n.isRelease = false) : releases (n :: past) = releases past := by
  unfold releases
  rw [List.countP_cons_of_neg (ne_true_of_eq_false h)]

/-- A hook in place was registered for the process that has its owner's identifier. -/
theorem current_of_lawful (h : Lawful j) (hr : r ∈ registrations j) :
    incarnation r.hook.owner r.past = incarnation r.hook.owner j := by
  induction j with
  | nil => cases hr
  | cons n past ih =>
    obtain ⟨hn, hpast⟩ := h
    cases n with
    | created id entry space =>
      have hne : (Note.created id entry space).creates r.hook.owner = false :=
        beq_false_of_ne fun hid => hn.1 r hr hid.symm
      rw [incarnation_cons hne]
      exact ih hpast hr
    | hooked line owner =>
      rw [incarnation_cons rfl]
      rcases List.mem_append.1 hr with hr | hr
      · exact ih hpast hr
      · rw [List.mem_singleton.1 hr]
    | unhooked count owner =>
      rw [incarnation_cons rfl]
      exact ih hpast (List.mem_filter.1 hr).1
    | _ =>
      rw [incarnation_cons rfl]
      exact ih hpast hr

theorem Announcement.Genuine.cons (h : a.Genuine past) (ha : a ∈ announcements past)
    (hn : n.Follows past) : a.Genuine (n :: past) := by
  refine ⟨h.hook, fun hreleases => ?_⟩
  have hle := releases_le (past_of_mem_announcements ha)
  cases n with
  | created id entry space =>
    rw [releases_cons rfl] at hreleases
    by_cases hid : a.owner = id
    · have := hn.2 a ha hid
      omega
    · have hne : (Note.created id entry space).creates a.owner = false :=
        beq_false_of_ne fun e => hid e.symm
      rw [h.owner hreleases, incarnation_cons hne]
  | released count =>
    have : releases (.released count :: past) = releases past + 1 :=
      List.countP_cons_of_pos rfl
    omega
  | _ =>
    rw [releases_cons rfl] at hreleases
    rw [h.owner hreleases, incarnation_cons rfl]

theorem genuine_of_lawful (h : Lawful j) (ha : a ∈ announcements j) : a.Genuine j := by
  induction j generalizing a with
  | nil => cases ha
  | cons n past ih =>
    obtain ⟨hn, hpast⟩ := h
    have hkept : ∀ {a}, a ∈ announcements past → a.Genuine (n :: past) :=
      fun ha => (ih hpast ha).cons ha hn
    cases n with
    | announced e owner =>
      rcases List.mem_append.1 ha with ha | ha
      · exact hkept ha
      · rw [List.mem_singleton.1 ha]
        obtain ⟨r, hr, rfl, he⟩ := hn
        exact ⟨⟨r, hr, rfl, he, current_of_lawful hpast hr⟩, fun _ => rfl⟩
    | delivered e owner => exact hkept (List.mem_of_mem_tail ha)
    | queueFull e owner => exact hkept (List.mem_of_mem_tail ha)
    | ownerMissing e owner => exact hkept (List.mem_of_mem_tail ha)
    | _ => exact hkept ha

theorem lawful_of_suffix (h : Lawful j) (hs : past <:+ j) : Lawful past := by
  induction j with
  | nil =>
    rw [List.suffix_nil.1 hs]
    trivial
  | cons n rest ih =>
    rcases List.suffix_cons_iff.1 hs with rfl | hs
    · exact h
    · exact ih h.2 hs

/-- What is handed over is the oldest announcement that nobody has got yet. -/
theorem handed_of_lawful {owner : ProcessId} {e : Event} (h : Lawful (n :: past))
    (hn : n.handed? = some (owner, e)) :
    ∃ a rest, announcements past = a :: rest ∧ a.owner = owner ∧ a.event = e ∧ a.Genuine past := by
  have hfollows : ∃ a rest, announcements past = a :: rest ∧ a.owner = owner ∧ a.event = e := by
    cases n <;> cases hn <;> exact h.1
  obtain ⟨a, rest, ha, howner, he⟩ := hfollows
  exact ⟨a, rest, ha, howner, he, genuine_of_lawful h.2 (by rw [ha]; exact List.mem_cons_self)⟩

end Journal

end Nucleus
