import Mathlib.Data.List.Nodup
import Nucleus.Proofs.Provenance

/-!
# Nucleus.Proofs.Whereabouts

Where each event is that an interrupt has raised. An event is raised once for each hook of the line,
and from then on it is in one place at a time: it was dropped at once, or it waits in the inbox, or
in the queue of its owner; it was taken from there, or went with the owner; or it was discarded on
the way, for want of an owner or of room. The journal tells all of that, so each event can be
followed through the journal alone, and what is found in this way is compared with the machine.

* `whereabouts`: the events that were raised, in that order, each with the place where it is now.
* `Parcel.Before`: events are handed on in the order in which they were raised, so that none
  overtakes another one on the way to its owner or out of its queue.
* `Traffic.Located`: inbox, queues, and what was told of takings and losses agree with it.
* `sublist_raised`: who takes events gets them in the order in which they were raised.
-/

namespace Nucleus

/-! ### What was told of events -/

namespace Note

/-- The event that an interrupt raised, and for whom. -/
def raised? : Note → Option (ProcessId × Event)
  | announced e owner => some (owner, e)
  | inboxFull e owner => some (owner, e)
  | _ => none

/-- The event that a process has taken from its queue. -/
def taken? : Note → Option (ProcessId × Event)
  | taken e owner => some (owner, e)
  | _ => none

/-- The event that did not get into the queue of its owner. -/
def discarded? : Note → Option (ProcessId × Event)
  | queueFull e owner => some (owner, e)
  | ownerMissing e owner => some (owner, e)
  | _ => none

/-- The process ends, and with it what is in its queue. -/
def ends (id : ProcessId) : Note → Bool
  | terminated j _ => j == id
  | released _ => true
  | _ => false

end Note

/-- The events that were raised, the oldest first. -/
def raised (j : Journal) : List (ProcessId × Event) :=
  (j.filterMap Note.raised?).reverse

def takings (j : Journal) : List (ProcessId × Event) :=
  (j.filterMap Note.taken?).reverse

def discards (j : Journal) : List (ProcessId × Event) :=
  (j.filterMap Note.discarded?).reverse

/-- The events for the process with an identifier. -/
def eventsFor (id : ProcessId) (l : List (ProcessId × Event)) : List Event :=
  (l.filter fun i => i.1 == id).map Prod.snd

/-- The events in the queue of a process, if there is one. -/
def queueOf : Option Process → List Event
  | none => []
  | some p => p.events.items

/-! ### Parcels -/

/-- Where an event can be. -/
inductive Place where
  /-- There was no room in the inbox. -/
  | dropped
  | inbox
  | queue
  | taken
  /-- Its owner did not exist, or had no room for it. -/
  | discarded
  /-- It went with the owner in whose queue it was. -/
  | destroyed
deriving DecidableEq

/-- An event that was raised for a process, and where it is. -/
structure Parcel where
  owner : ProcessId
  event : Event
  place : Place
deriving DecidableEq

namespace Parcel

def item (x : Parcel) : ProcessId × Event :=
  (x.owner, x.event)

/-- What is in the queue of a process that ends goes with it. -/
def destroy (ends : ProcessId → Bool) (x : Parcel) : Parcel :=
  if x.place = .queue ∧ ends x.owner = true then { x with place := .destroyed } else x

/-- A parcel may have been raised before another one. What waits in the inbox lets nothing by, and
what waits in a queue nothing out of the same queue. -/
structure Before (x y : Parcel) : Prop where
  inbox : x.place = .inbox → y.place = .inbox ∨ y.place = .dropped
  queue : x.owner = y.owner → x.place = .queue → y.place ≠ .taken

end Parcel

/-- The first parcel of some kind goes to a place. -/
def forward (test : Parcel → Bool) (place : Place) (l : List Parcel) : List Parcel :=
  l.replaceF fun x => if test x then some { x with place } else none

/-- The events that were raised, the oldest first, each with the place where it is now. -/
def whereabouts : Journal → List Parcel
  | [] => []
  | .announced e owner :: past => whereabouts past ++ [⟨owner, e, .inbox⟩]
  | .inboxFull e owner :: past => whereabouts past ++ [⟨owner, e, .dropped⟩]
  | .delivered _ _ :: past => forward (fun x => x.place == .inbox) .queue (whereabouts past)
  | .queueFull _ _ :: past => forward (fun x => x.place == .inbox) .discarded (whereabouts past)
  | .ownerMissing _ _ :: past => forward (fun x => x.place == .inbox) .discarded (whereabouts past)
  | .taken _ owner :: past =>
    forward (fun x => x.owner == owner && x.place == .queue) .taken (whereabouts past)
  | .terminated id _ :: past => (whereabouts past).map (Parcel.destroy fun owner => owner == id)
  | .released _ :: past => (whereabouts past).map (Parcel.destroy fun _ => true)
  | _ :: past => whereabouts past

/-- What is in a place, in the order in which it was raised. -/
def placed (place : Place) (l : List Parcel) : List (ProcessId × Event) :=
  (l.filter fun x => x.place == place).map Parcel.item

section Parcels

variable {l l' l₁ l₂ : List Parcel} {a x : Parcel} {place r : Place} {id j : ProcessId} {e : Event}

theorem eventsFor_append (id : ProcessId) (k k' : List (ProcessId × Event)) :
    eventsFor id (k ++ k') = eventsFor id k ++ eventsFor id k' := by
  simp [eventsFor]

theorem eventsFor_singleton (id : ProcessId) (i : ProcessId × Event) :
    eventsFor id [i] = if i.1 = id then [i.2] else [] := by
  by_cases h : i.1 = id <;> simp [eventsFor, h]

theorem placed_append (r : Place) (l l' : List Parcel) :
    placed r (l ++ l') = placed r l ++ placed r l' := by
  simp [placed]

theorem placed_singleton (r : Place) (x : Parcel) :
    placed r [x] = if x.place = r then [x.item] else [] := by
  by_cases h : x.place = r <;> simp [placed, h]

theorem placed_middle (r : Place) (l₁ : List Parcel) (x : Parcel) (l₂ : List Parcel) :
    placed r (l₁ ++ x :: l₂) =
      placed r l₁ ++ (if x.place = r then [x.item] else []) ++ placed r l₂ := by
  rw [← placed_singleton, ← placed_append, ← placed_append]
  simp

theorem placed_eq_nil (h : ∀ x ∈ l, x.place ≠ r) : placed r l = [] := by
  unfold placed
  rw [List.filter_eq_nil_iff.2 fun x hx => by simpa using h x hx, List.map_nil]

/-- The events for a process in a place. -/
theorem eventsFor_placed (id : ProcessId) (r : Place) (l : List Parcel) :
    eventsFor id (placed r l) =
      (l.filter fun x => x.owner == id && x.place == r).map Parcel.event := by
  simp only [eventsFor, placed, List.filter_map, List.filter_filter, List.map_map]
  rfl

theorem eventsFor_placed_eq_nil (h : ∀ x ∈ l, x.owner = id → x.place ≠ r) :
    eventsFor id (placed r l) = [] := by
  rw [eventsFor_placed, List.filter_eq_nil_iff.2 fun x hx => by simpa using h x hx, List.map_nil]

theorem eventsFor_placed_middle (id : ProcessId) (r : Place) (l₁ : List Parcel) (x : Parcel)
    (l₂ : List Parcel) : eventsFor id (placed r (l₁ ++ x :: l₂)) =
      eventsFor id (placed r l₁) ++ (if x.place = r ∧ x.owner = id then [x.event] else []) ++
        eventsFor id (placed r l₂) := by
  rw [placed_middle, eventsFor_append, eventsFor_append]
  by_cases hr : x.place = r <;> by_cases ho : x.owner = id <;>
    simp [hr, ho, eventsFor, Parcel.item]

/-- The first parcel of a kind is what goes to the place. -/
theorem forward_eq {test : Parcel → Bool} {rest : List Parcel} (h : l.filter test = a :: rest)
    (place : Place) : ∃ l₁ l₂, l = l₁ ++ a :: l₂ ∧ (∀ x ∈ l₁, ¬ test x) ∧ test a ∧
      l₂.filter test = rest ∧ forward test place l = l₁ ++ { a with place } :: l₂ := by
  obtain ⟨l₁, l₂, rfl, hbefore, ha, hrest⟩ := List.filter_eq_cons_iff.1 h
  refine ⟨l₁, l₂, rfl, hbefore, ha, hrest, ?_⟩
  clear h hrest
  induction l₁ with
  | nil => simp [forward, ha]
  | cons x l₁ ih =>
    have hx := hbefore x List.mem_cons_self
    have hrest := ih fun y hy => hbefore y (List.mem_cons_of_mem x hy)
    unfold forward at hrest ⊢
    simp [hx, hrest]

/-- A parcel in a list may be replaced if that suits the others. -/
theorem pairwise_replace {a' : Parcel} (h : (l₁ ++ a :: l₂).Pairwise Parcel.Before)
    (h₁ : ∀ x ∈ l₁, x.Before a → x.Before a') (h₂ : ∀ y ∈ l₂, a.Before y → a'.Before y) :
    (l₁ ++ a' :: l₂).Pairwise Parcel.Before := by
  rw [List.pairwise_append, List.pairwise_cons] at h ⊢
  obtain ⟨hl₁, ⟨ha, hl₂⟩, hcross⟩ := h
  refine ⟨hl₁, ⟨fun y hy => h₂ y hy (ha y hy), hl₂⟩, fun x hx y hy => ?_⟩
  rcases List.mem_cons.1 hy with rfl | hy
  · exact h₁ x hx (hcross x hx a List.mem_cons_self)
  · exact hcross x hx y (List.mem_cons_of_mem a hy)

theorem before_of_mem (h : (l₁ ++ a :: l₂).Pairwise Parcel.Before) : ∀ y ∈ l₂, a.Before y :=
  (List.pairwise_cons.1 (List.pairwise_append.1 h).2.1).1

/-- A place that has to do with a parcel neither before nor afterwards. -/
theorem placed_replace (ha : a.place ≠ r) (hr : place ≠ r) :
    placed r (l₁ ++ { a with place } :: l₂) = placed r (l₁ ++ a :: l₂) := by
  simp [placed_middle, ha, hr]

/-! ### Ways of parcels -/

/-- The parcels are in order again, and the same ones. -/
structure Kept (l l' : List Parcel) : Prop where
  order : l'.Pairwise Parcel.Before
  items : l'.map Parcel.item = l.map Parcel.item

/-- The oldest event of the inbox goes to a place. -/
structure Handed (i : ProcessId × Event) (place : Place) (l l' : List Parcel) : Prop
    extends Kept l l' where
  inbox : placed .inbox l = i :: placed .inbox l'
  arrived : placed place l' = placed place l ++ [i]
  others : ∀ r, r ≠ .inbox → r ≠ place → placed r l' = placed r l

/-- The oldest event in the queue of a process is taken. -/
structure Taken (id : ProcessId) (e : Event) (l l' : List Parcel) : Prop extends Kept l l' where
  queue : ∀ j, eventsFor j (placed .queue l) =
    (if id = j then [e] else []) ++ eventsFor j (placed .queue l')
  taken : ∀ j, eventsFor j (placed .taken l') =
    eventsFor j (placed .taken l) ++ if id = j then [e] else []
  others : ∀ r, r ≠ .queue → r ≠ .taken → placed r l' = placed r l

/-- The queues of some processes are destroyed. -/
structure Destroyed (ends : ProcessId → Bool) (l l' : List Parcel) : Prop extends Kept l l' where
  queue : ∀ j, eventsFor j (placed .queue l') =
    if ends j then [] else eventsFor j (placed .queue l)
  others : ∀ r, r ≠ .queue → r ≠ .destroyed → placed r l' = placed r l

theorem forward_inbox {i : ProcessId × Event} {rest : List (ProcessId × Event)}
    (h : l.Pairwise Parcel.Before) (hi : placed .inbox l = i :: rest)
    (hplace : place = .queue ∨ place = .discarded) :
    Handed i place l (forward (fun x => x.place == .inbox) place l) := by
  obtain ⟨a, others, hfilter, rfl, rfl⟩ := List.map_eq_cons_iff.1 hi
  obtain ⟨l₁, l₂, rfl, hbefore, ha, rfl, hforward⟩ := forward_eq hfilter place
  rw [hforward]
  have hinbox : a.place = .inbox := beq_iff_eq.1 ha
  have hearlier : ∀ x ∈ l₁, x.place ≠ .inbox := fun x hx hp => hbefore x hx (beq_iff_eq.2 hp)
  have hlater : ∀ y ∈ l₂, y.place = .inbox ∨ y.place = .dropped :=
    fun y hy => (before_of_mem h y hy).inbox hinbox
  have hne : place ≠ .inbox := by rcases hplace with rfl | rfl <;> rintro ⟨⟩
  refine ⟨⟨pairwise_replace h ?_ ?_, by simp [Parcel.item]⟩, ?_, ?_, ?_⟩
  · intro x hx _
    refine ⟨fun hp => absurd hp (hearlier x hx), fun _ _ => ?_⟩
    rcases hplace with rfl | rfl <;> rintro ⟨⟩
  · intro y hy _
    refine ⟨fun hp => absurd hp hne, fun _ _ ht => ?_⟩
    rcases hlater y hy with hp | hp <;> cases ht.symm.trans hp
  · simp [placed_middle, placed_eq_nil hearlier, hinbox, hne]
  · -- Nothing that was raised later has got any further yet.
    have hnone : placed place l₂ = [] := placed_eq_nil fun y hy hp => by
      rcases hplace with rfl | rfl <;> rcases hlater y hy with hp' | hp' <;> cases hp.symm.trans hp'
    simp [placed_middle, hnone, hinbox, hne.symm, Parcel.item]
  · intro r hr hr'
    exact placed_replace (fun hp => hr (hp.symm.trans hinbox)) hr'.symm

theorem forward_queue {rest : List Event} (h : l.Pairwise Parcel.Before)
    (hq : eventsFor id (placed .queue l) = e :: rest) :
    Taken id e l (forward (fun x => x.owner == id && x.place == .queue) .taken l) := by
  rw [eventsFor_placed] at hq
  obtain ⟨a, others, hfilter, rfl, rfl⟩ := List.map_eq_cons_iff.1 hq
  obtain ⟨l₁, l₂, rfl, hbefore, ha, _, hforward⟩ := forward_eq hfilter .taken
  rw [hforward]
  simp only [Bool.and_eq_true, beq_iff_eq] at hbefore ha
  obtain ⟨rfl, hqueue⟩ := ha
  refine ⟨⟨pairwise_replace h ?_ ?_, by simp [Parcel.item]⟩, fun j => ?_, fun j => ?_, ?_⟩
  · intro x hx hxa
    refine ⟨fun hp => ?_, fun howner hp => absurd ⟨howner, hp⟩ (hbefore x hx)⟩
    rcases hxa.inbox hp with hp' | hp' <;> cases hqueue.symm.trans hp'
  · intro y hy _
    exact ⟨by rintro ⟨⟩, fun _ => by rintro ⟨⟩⟩
  · by_cases hj : a.owner = j
    · subst hj
      have hnone : eventsFor a.owner (placed .queue l₁) = [] :=
        eventsFor_placed_eq_nil fun x hx howner hp => hbefore x hx ⟨howner, hp⟩
      simp [eventsFor_placed_middle, hnone, hqueue]
    · simp [eventsFor_placed_middle, hj]
  · by_cases hj : a.owner = j
    · subst hj
      -- What was raised later for the same process has not been taken yet.
      have hnone : eventsFor a.owner (placed .taken l₂) = [] :=
        eventsFor_placed_eq_nil fun y hy howner =>
          (before_of_mem h y hy).queue howner.symm hqueue
      simp [eventsFor_placed_middle, hnone, hqueue]
    · simp [eventsFor_placed_middle, hj]
  · intro r hr hr'
    exact placed_replace (fun hp => hr (hp.symm.trans hqueue)) hr'.symm

section Destroy

variable (ends : ProcessId → Bool) (x : Parcel)

@[simp] theorem owner_destroy : (x.destroy ends).owner = x.owner := by
  unfold Parcel.destroy
  split <;> rfl

@[simp] theorem event_destroy : (x.destroy ends).event = x.event := by
  unfold Parcel.destroy
  split <;> rfl

theorem item_destroy : (x.destroy ends).item = x.item := by
  simp [Parcel.item]

theorem place_destroy : (x.destroy ends).place =
    if x.place = .queue ∧ ends x.owner = true then .destroyed else x.place := by
  unfold Parcel.destroy
  split <;> rfl

theorem destroy_in_iff (hr : r ≠ .queue) (hr' : r ≠ .destroyed) :
    (x.destroy ends).place = r ↔ x.place = r := by
  rw [place_destroy]
  split
  · rename_i hx
    rw [hx.1]
    exact ⟨fun h => absurd h.symm hr', fun h => absurd h.symm hr⟩
  · rfl

theorem destroy_in_queue_iff :
    (x.destroy ends).place = .queue ↔ x.place = .queue ∧ ends x.owner = false := by
  rw [place_destroy]
  split
  · rename_i hx
    simp [hx]
  · rename_i hx
    exact ⟨fun h => ⟨h, eq_false_of_ne_true fun he => hx ⟨h, he⟩⟩, And.left⟩

end Destroy

theorem Parcel.Before.destroy {y : Parcel} (h : x.Before y) (ends : ProcessId → Bool) :
    (x.destroy ends).Before (y.destroy ends) := by
  constructor
  · intro hx
    rw [destroy_in_iff ends x (by rintro ⟨⟩) (by rintro ⟨⟩)] at hx
    rw [destroy_in_iff ends y (by rintro ⟨⟩) (by rintro ⟨⟩),
      destroy_in_iff ends y (by rintro ⟨⟩) (by rintro ⟨⟩)]
    exact h.inbox hx
  · intro howner hx
    rw [owner_destroy, owner_destroy] at howner
    rw [Ne, destroy_in_iff ends y (by rintro ⟨⟩) (by rintro ⟨⟩)]
    exact h.queue howner ((destroy_in_queue_iff ends x).1 hx).1

theorem map_destroy (h : l.Pairwise Parcel.Before) (ends : ProcessId → Bool) :
    Destroyed ends l (l.map (Parcel.destroy ends)) := by
  refine ⟨⟨List.pairwise_map.2 (h.imp fun hxy => hxy.destroy ends), ?_⟩, fun j => ?_,
    fun r hr hr' => ?_⟩
  · rw [List.map_map]
    exact List.map_congr_left fun x _ => item_destroy ends x
  · cases hj : ends j with
    | true =>
      refine eventsFor_placed_eq_nil fun x hx howner hqueue => ?_
      obtain ⟨y, _, rfl⟩ := List.mem_map.1 hx
      rw [destroy_in_queue_iff, ← owner_destroy ends y, howner, hj] at hqueue
      cases hqueue.2
    | false =>
      have hsame : ∀ x ∈ l, ((x.destroy ends).owner == j && (x.destroy ends).place == .queue) =
          (x.owner == j && x.place == .queue) := by
        intro x _
        rw [owner_destroy, Bool.eq_iff_iff]
        simp only [Bool.and_eq_true, beq_iff_eq, destroy_in_queue_iff]
        refine and_congr_right fun howner => ?_
        simp [howner, hj]
      rw [eventsFor_placed, eventsFor_placed, List.filter_map, List.map_map,
        List.filter_congr (q := fun x => x.owner == j && x.place == .queue) hsame]
      exact List.map_congr_left fun x _ => event_destroy ends x
  · have hsame : ∀ x ∈ l, ((x.destroy ends).place == r) = (x.place == r) := by
      intro x _
      rw [Bool.eq_iff_iff, beq_iff_eq, beq_iff_eq, destroy_in_iff ends x hr hr']
    unfold placed
    rw [List.filter_map, List.map_map, List.filter_congr (q := fun x => x.place == r) hsame]
    exact List.map_congr_left fun x _ => item_destroy ends x

theorem mem_forward {test : Parcel → Bool} (hx : x ∈ forward test place l) :
    x ∈ l ∨ x.place = place := by
  induction l with
  | nil => cases hx
  | cons y l ih =>
    unfold forward at ih hx
    by_cases hy : test y = true
    · simp only [List.replaceF, hy, if_true, List.mem_cons] at hx
      rcases hx with rfl | hx
      · exact .inr rfl
      · exact .inl (List.mem_cons_of_mem y hx)
    · simp only [List.replaceF, hy, Bool.false_eq_true, if_false, List.mem_cons] at hx
      rcases hx with rfl | hx
      · exact .inl List.mem_cons_self
      · exact (ih hx).imp_left (List.mem_cons_of_mem y)

/-- What is destroyed was for a process that ended. -/
theorem ended_of_destroyed {past : Journal} (hx : x ∈ whereabouts past)
    (hp : x.place = .destroyed) : ∃ n ∈ past, n.ends x.owner = true := by
  induction past generalizing x with
  | nil => cases hx
  | cons n past ih =>
    have hkept : ∀ {y : Parcel}, y ∈ whereabouts past → y.place = .destroyed →
        ∃ n' ∈ n :: past, n'.ends y.owner = true := by
      intro y hy hd
      obtain ⟨n', hn', he⟩ := ih hy hd
      exact ⟨n', List.mem_cons_of_mem n hn', he⟩
    have hadded : ∀ {y : Parcel}, y.place ≠ .destroyed → x ∈ whereabouts past ++ [y] →
        ∃ n' ∈ n :: past, n'.ends x.owner = true := by
      intro y hne hx
      rcases List.mem_append.1 hx with hx | hx
      · exact hkept hx hp
      · exact absurd (List.mem_singleton.1 hx ▸ hp) hne
    have hforwarded : ∀ {test : Parcel → Bool} {place : Place}, place ≠ .destroyed →
        x ∈ forward test place (whereabouts past) → ∃ n' ∈ n :: past, n'.ends x.owner = true := by
      intro test place hne hx
      rcases mem_forward hx with hx | hx
      · exact hkept hx hp
      · exact absurd (hx.symm.trans hp) hne
    have hdestroyed : ∀ {ends : ProcessId → Bool}, (∀ j, ends j = n.ends j) →
        x ∈ (whereabouts past).map (Parcel.destroy ends) →
        ∃ n' ∈ n :: past, n'.ends x.owner = true := by
      intro ends hends hx
      obtain ⟨y, hy, rfl⟩ := List.mem_map.1 hx
      rw [place_destroy] at hp
      rw [owner_destroy]
      split at hp
      · rename_i hy
        exact ⟨n, List.mem_cons_self, hends _ ▸ hy.2⟩
      · exact hkept hy hp
    cases n with
    | announced e owner => exact hadded (by rintro ⟨⟩) hx
    | inboxFull e owner => exact hadded (by rintro ⟨⟩) hx
    | delivered e owner => exact hforwarded (by rintro ⟨⟩) hx
    | queueFull e owner => exact hforwarded (by rintro ⟨⟩) hx
    | ownerMissing e owner => exact hforwarded (by rintro ⟨⟩) hx
    | taken e owner => exact hforwarded (by rintro ⟨⟩) hx
    | terminated id status => exact hdestroyed (fun j => Bool.beq_comm) hx
    | released count => exact hdestroyed (fun j => rfl) hx
    | _ => exact hkept hx hp

end Parcels

/-! ### The machine agrees -/

/-- The note tells of an event, or of queues that are destroyed. -/
def Note.isWay : Note → Bool
  | announced _ _ => true
  | inboxFull _ _ => true
  | delivered _ _ => true
  | queueFull _ _ => true
  | ownerMissing _ _ => true
  | taken _ _ => true
  | terminated _ _ => true
  | released _ => true
  | _ => false

theorem isWay_aside {n : Note} (h : n.isAside = true) : n.isWay = false := by
  cases n <;> first | rfl | cases h

/-- Other notes tell nothing of any event. -/
theorem whereabouts_quiet (told : Journal) (h : ∀ n ∈ told, n.isWay = false) (j : Journal) :
    whereabouts (told ++ j) = whereabouts j ∧ raised (told ++ j) = raised j ∧
      takings (told ++ j) = takings j ∧ discards (told ++ j) = discards j := by
  induction told with
  | nil => exact ⟨rfl, rfl, rfl, rfl⟩
  | cons n told ih =>
    have hn := h n List.mem_cons_self
    obtain ⟨hw, hr, ht, hd⟩ := ih fun m hm => h m (List.mem_cons_of_mem n hm)
    rw [← hw, ← hr, ← ht, ← hd]
    cases n <;> first | exact ⟨rfl, rfl, rfl, rfl⟩ | cases hn

namespace Traffic

variable {s t u : Traffic} {d : Deed} {id : ProcessId}

/-- Each event that was raised is where the machine has it. -/
structure Located (s : Traffic) : Prop where
  order : (whereabouts s.journal).Pairwise Parcel.Before
  items : (whereabouts s.journal).map Parcel.item = raised s.journal
  dropped : (placed .dropped (whereabouts s.journal)).length = s.inbox.dropped
  inbox : placed .inbox (whereabouts s.journal) = s.inbox.pending
  queue : ∀ id, eventsFor id (placed .queue (whereabouts s.journal)) =
    queueOf (s.processes.get? id)
  taken : ∀ id, eventsFor id (placed .taken (whereabouts s.journal)) =
    eventsFor id (takings s.journal)
  discarded : placed .discarded (whereabouts s.journal) = discards s.journal

/-- What tells nothing of events and leaves the queues alone. -/
theorem Located.quiet (h : s.Located) (told : Journal) (hj : t.journal = told ++ s.journal)
    (htold : ∀ n ∈ told, n.isWay = false) (hinbox : t.inbox = s.inbox)
    (hqueue : ∀ id, queueOf (t.processes.get? id) = queueOf (s.processes.get? id)) :
    t.Located := by
  obtain ⟨hw, hr, ht, hd⟩ := whereabouts_quiet told htold s.journal
  rw [← hj] at hw hr ht hd
  constructor
  · exact hw ▸ h.order
  · rw [hw, hr, h.items]
  · rw [hw, hinbox, h.dropped]
  · rw [hw, hinbox, h.inbox]
  · intro id
    rw [hw, hqueue, h.queue]
  · intro id
    rw [hw, ht, h.taken]
  · rw [hw, hd, h.discarded]

theorem queueOf_untold {r r' : Registry} (h : r.Untold r') (id : ProcessId) :
    queueOf (r'.get? id) = queueOf (r.get? id) := by
  cases hp : r.get? id with
  | none => rw [h.eq_none_iff.2 hp]
  | some p =>
    obtain ⟨q, hq, hpq⟩ := h.forth hp
    rw [hq]
    exact congrArg BoundedQueue.items hpq.events

theorem queueOf_map {f : Process → Process} (he : ∀ p, (f p).events = p.events)
    (o : Option Process) : queueOf (o.map f) = queueOf o := by
  cases o with
  | none => rfl
  | some p => exact congrArg BoundedQueue.items (he p)

theorem queueOf_modify {f : Process → Process} (hf : ∀ p, (f p).id = p.id)
    (he : ∀ p, (f p).events = p.events) (r : Registry) (j id : ProcessId) :
    queueOf ((r.modify j f hf).get? id) = queueOf (r.get? id) := by
  rw [Registry.get?_modify]
  split
  · exact queueOf_map he _
  · rfl

/-- Room in the queue of the owner decides what becomes of an event. -/
theorem queueOf_deliver (r : Registry) (owner : ProcessId) (e : Event) (id : ProcessId) :
    queueOf ((r.deliver owner e).get? id) = queueOf (r.get? id) ++
      if (r.get? owner).any (fun p => p.events.hasRoom) = true ∧ owner = id then [e] else [] := by
  rw [Registry.get?_deliver]
  by_cases hid : id = owner
  · subst hid
    cases hp : r.get? id with
    | none => simp [queueOf]
    | some p =>
      cases hroom : p.events.hasRoom <;>
        simp [queueOf, events_receive, BoundedQueue.items_push, hroom]
  · rw [if_neg hid, if_neg fun h => hid h.2.symm, List.append_nil]

/-- Where nothing of one kind comes after anything of another kind, the one followed by the other
keeps to the order of the list. -/
theorem filter_append_filter_sublist {α : Type} {f g : α → Bool} {l : List α}
    (h : l.Pairwise fun x y => g x = true → ¬ f y = true) (hfg : ∀ x, f x = true → ¬ g x = true) :
    (l.filter f ++ l.filter g).Sublist l := by
  induction l with
  | nil => exact List.Sublist.refl _
  | cons x l ih =>
    obtain ⟨hx, hl⟩ := List.pairwise_cons.1 h
    by_cases hg : g x = true
    · have hf : ¬ f x = true := fun hf => hfg x hf hg
      have hnone : l.filter f = [] := List.filter_eq_nil_iff.2 fun y hy => hx y hy hg
      rw [List.filter_cons_of_neg hf, List.filter_cons_of_pos hg, hnone]
      exact List.filter_sublist.cons_cons x
    · by_cases hf : f x = true
      · rw [List.filter_cons_of_pos hf, List.filter_cons_of_neg hg]
        exact (ih hl).cons_cons x
      · rw [List.filter_cons_of_neg hf, List.filter_cons_of_neg hg]
        exact (ih hl).cons x

theorem pairwise_snoc {l : List Parcel} (h : l.Pairwise Parcel.Before) {x : Parcel}
    (hx : x.place = .inbox ∨ x.place = .dropped) : (l ++ [x]).Pairwise Parcel.Before := by
  refine List.pairwise_append.2 ⟨h, List.pairwise_singleton _ _, fun y _ z hz => ?_⟩
  rw [List.mem_singleton.1 hz]
  refine ⟨fun _ => hx, fun _ _ ht => ?_⟩
  rcases hx with hx | hx <;> cases hx.symm.trans ht

/-- An event is raised and finds room in the inbox or none, and that is told. -/
theorem Located.raised_to (h : s.Located) {owner : ProcessId} {e : Event} {place : Place} {n : Note}
    {i : Inbox} (hplace : place = .inbox ∨ place = .dropped)
    (hw : whereabouts (n :: s.journal) = whereabouts s.journal ++ [⟨owner, e, place⟩])
    (hr : raised (n :: s.journal) = raised s.journal ++ [(owner, e)])
    (ht : takings (n :: s.journal) = takings s.journal)
    (hd : discards (n :: s.journal) = discards s.journal)
    (hpending : i.pending = s.inbox.pending ++ if place = .inbox then [(owner, e)] else [])
    (hdropped : i.dropped = s.inbox.dropped + if place = .dropped then 1 else 0) :
    Located ({ s with inbox := i }.note n) := by
  have hothers : ∀ r, r ≠ .inbox → r ≠ .dropped →
      placed r (whereabouts (n :: s.journal)) = placed r (whereabouts s.journal) := by
    intro r hr hr'
    rcases hplace with rfl | rfl <;> simp [hw, placed_append, placed_singleton, hr.symm, hr'.symm]
  refine ⟨?_, ?_, ?_, ?_, fun id => ?_, fun id => ?_, ?_⟩
  · exact hw ▸ pairwise_snoc h.order hplace
  · show (whereabouts (n :: s.journal)).map _ = raised (n :: s.journal)
    rw [hw, hr, List.map_append, h.items]
    rfl
  · show (placed .dropped (whereabouts (n :: s.journal))).length = i.dropped
    rw [hw, hdropped, placed_append, List.length_append, h.dropped, placed_singleton]
    split <;> rfl
  · show placed .inbox (whereabouts (n :: s.journal)) = i.pending
    rw [hw, hpending, placed_append, h.inbox, placed_singleton]
    rfl
  · show eventsFor id (placed .queue (whereabouts (n :: s.journal))) = _
    rw [hothers _ (by rintro ⟨⟩) (by rintro ⟨⟩)]
    exact h.queue id
  · show eventsFor id (placed .taken (whereabouts (n :: s.journal))) =
      eventsFor id (takings (n :: s.journal))
    rw [hothers _ (by rintro ⟨⟩) (by rintro ⟨⟩), ht]
    exact h.taken id
  · exact (hothers _ (by rintro ⟨⟩) (by rintro ⟨⟩)).trans (h.discarded.trans hd.symm)

theorem Located.announced (h : s.Located) (g : Hook) (hroom : s.inbox.hasRoom = true) :
    Located ({ s with inbox := s.inbox.push g.owner (.interrupt g.line) }.note
      (.announced (.interrupt g.line) g.owner)) := by
  refine h.raised_to (.inl rfl) rfl List.reverse_cons rfl rfl (pending_push hroom _ _) ?_
  unfold Inbox.push
  rw [if_pos hroom]
  rfl

theorem Located.inboxFull (h : s.Located) (g : Hook) (hroom : s.inbox.hasRoom = false) :
    Located ({ s with inbox := s.inbox.push g.owner (.interrupt g.line) }.note
      (.inboxFull (.interrupt g.line) g.owner)) := by
  refine h.raised_to (.inr rfl) rfl List.reverse_cons rfl rfl ?_ ?_
  · rw [pending_push_full hroom]
    exact (List.append_nil _).symm
  · unfold Inbox.push
    rw [if_neg (ne_true_of_eq_false hroom)]
    rfl

/-- The oldest event of the inbox is queued or discarded, and that is told. -/
theorem Located.handed_to (h : s.Located) {owner : ProcessId} {e : Event}
    {rest : List (ProcessId × Event)} {place : Place} {j : Journal}
    (hp : s.inbox.pending = (owner, e) :: rest) (hplace : place = .queue ∨ place = .discarded)
    (hw : whereabouts j = forward (fun x => x.place == .inbox) place (whereabouts s.journal))
    (hr : raised j = raised s.journal) (ht : takings j = takings s.journal)
    (hd : discards j = discards s.journal ++ if place = .discarded then [(owner, e)] else [])
    (hqueue : ∀ id, queueOf ((s.processes.deliver owner e).get? id) =
      queueOf (s.processes.get? id) ++ if place = .queue ∧ owner = id then [e] else []) :
    Located { s with
      processes := s.processes.deliver owner e, inbox := s.inbox.dropFront, journal := j } := by
  obtain ⟨⟨horder, hitems⟩, hinbox, harrived, hothers⟩ :=
    forward_inbox h.order (h.inbox.trans hp) hplace
  rw [← hw] at horder hitems hinbox harrived hothers
  have hne : place ≠ .taken ∧ place ≠ .dropped := by
    rcases hplace with rfl | rfl <;> exact ⟨by rintro ⟨⟩, by rintro ⟨⟩⟩
  refine ⟨horder, ?_, ?_, ?_, fun id => ?_, fun id => ?_, ?_⟩
  · rw [hitems, hr, h.items]
  · rw [hothers _ (by rintro ⟨⟩) hne.2.symm]
    exact h.dropped
  · rw [h.inbox] at hinbox
    show _ = s.inbox.pending.tail
    rw [hinbox]
    rfl
  · rw [hqueue, ← h.queue]
    rcases hplace with rfl | rfl
    · simp [harrived, eventsFor_append, eventsFor_singleton]
    · simp [hothers .queue (by rintro ⟨⟩) (by rintro ⟨⟩)]
  · rw [hothers _ (by rintro ⟨⟩) hne.1.symm, ht, h.taken]
  · rw [hd, ← h.discarded]
    rcases hplace with rfl | rfl
    · simp [hothers .discarded (by rintro ⟨⟩) (by rintro ⟨⟩)]
    · simp [harrived]

theorem Located.handed (h : s.Located) {owner : ProcessId} {e : Event}
    {rest : List (ProcessId × Event)} (hp : s.inbox.pending = (owner, e) :: rest) :
    Located { s with
      processes := s.processes.deliver owner e
      inbox := s.inbox.dropFront
      journal := (s.processes.deliveryNotes owner e).reverse ++ s.journal } := by
  have hqueue := queueOf_deliver s.processes owner e
  unfold Registry.deliveryNotes
  cases hget : s.processes.get? owner with
  | none =>
    rw [hget] at hqueue
    exact h.handed_to hp (.inr rfl) rfl rfl rfl List.reverse_cons (by simpa using hqueue)
  | some p =>
    rw [hget] at hqueue
    by_cases hroom : p.events.hasRoom = true
    · simp only [if_pos hroom]
      refine h.handed_to hp (.inl rfl) rfl rfl rfl ?_ (by simpa [hroom] using hqueue)
      exact (List.append_nil _).symm
    · simp only [if_neg hroom]
      refine h.handed_to hp (.inr rfl) rfl rfl rfl ?_ (by simpa [hroom] using hqueue)
      exact List.reverse_cons

theorem Located.taken_from (h : s.Located) {id : ProcessId} {p : Process} {e : Event}
    (hp : s.processes.get? id = some p) (he : p.nextEvent? = some e) :
    Located
      ({ s with processes := s.processes.modify id Process.dropEvent }.note (.taken e id)) := by
  obtain ⟨rest, hitems⟩ := List.head?_eq_some_iff.1 he
  have hfirst : eventsFor id (placed .queue (whereabouts s.journal)) = e :: rest := by
    rw [h.queue, hp]
    exact hitems
  obtain ⟨⟨horder, hsame⟩, hqueue, htaken, hothers⟩ := forward_queue h.order hfirst
  refine ⟨horder, hsame.trans h.items, ?_, ?_, fun j => ?_, fun j => ?_, ?_⟩
  · exact (congrArg List.length (hothers .dropped (by rintro ⟨⟩) (by rintro ⟨⟩))).trans h.dropped
  · exact (hothers .inbox (by rintro ⟨⟩) (by rintro ⟨⟩)).trans h.inbox
  · have hj := hqueue j
    rw [h.queue] at hj
    show _ = queueOf ((s.processes.modify id Process.dropEvent).get? j)
    rw [Registry.get?_modify]
    by_cases hid : j = id
    · subst hid
      rw [if_pos rfl, hp] at hj
      rw [if_pos rfl, hp]
      show _ = p.events.items.tail
      rw [show p.events.items = _ from hj]
      rfl
    · rw [if_neg fun h => hid h.symm] at hj
      rw [if_neg hid]
      exact hj.symm
  · refine (htaken j).trans ?_
    have htold : takings (.taken e id :: s.journal) = takings s.journal ++ [(id, e)] :=
      List.reverse_cons
    show _ = eventsFor j (takings (.taken e id :: s.journal))
    rw [h.taken, htold, eventsFor_append, eventsFor_singleton]
  · exact (hothers .discarded (by rintro ⟨⟩) (by rintro ⟨⟩)).trans h.discarded

theorem Located.step (h : s.Located) (hs : s.Step d t) : t.Located := by
  cases hs with
  | untold hr => exact h.quiet [] rfl (by simp) rfl (queueOf_untold hr)
  | @aside n hn => exact h.quiet [n] rfl (by simp [isWay_aside hn]) rfl fun _ => rfl
  | ticked => exact h.quiet [] rfl (by simp) rfl fun _ => rfl
  | announced hg hroom => exact h.announced _ hroom
  | inboxFull hg hroom => exact h.inboxFull _ hroom
  | handed hp => exact h.handed hp
  | @expired now =>
    refine h.quiet _ rfl (fun n hn => ?_) rfl fun id => ?_
    · simp only [Registry.expiryNotes, List.mem_reverse, List.mem_map] at hn
      obtain ⟨p, _, rfl⟩ := hn
      rfl
    · show queueOf ((s.processes.wakeExpired now).get? id) = _
      rw [Registry.get?_wakeExpired]
      exact queueOf_map (events_checkTimer now) _
  | taken hp he => exact h.taken_from hp he
  | @woken id p hp =>
    refine h.quiet [.woken id (p.state == .sleeping)] rfl (by simp [Note.isWay]) rfl ?_
    exact queueOf_modify Process.id_wake events_wake _ _
  | @spared id p timer =>
    refine h.quiet [.wakeupConsumed id] rfl (by simp [Note.isWay]) rfl ?_
    exact queueOf_modify (Process.id_sleep timer) (events_sleep timer) _ _
  | @slept id p timer =>
    refine h.quiet [] rfl (by simp) rfl ?_
    exact queueOf_modify (Process.id_sleep timer) (events_sleep timer) _ _
  | @paused id p deadline =>
    refine h.quiet [] rfl (by simp) rfl ?_
    exact queueOf_modify (Process.id_sleepUntil deadline) (fun _ => rfl) _ _
  | @hooked line owner =>
    exact h.quiet [.hooked line owner] rfl (by simp [Note.isWay]) rfl fun _ => rfl

theorem Located.create (h : s.Located) {p : Process} {entry : VirtAddr}
    (hfree : s.processes.get? p.id = none) (hnew : p.Newborn) : (s.create p entry).Located := by
  refine h.quiet [.created p.id entry p.space] rfl (by simp [Note.isWay]) rfl fun id => ?_
  rw [get?_create]
  split
  · rename_i hid
    rw [← hid, hfree]
    exact hnew.events
  · rfl

theorem Located.unhook (h : s.Located) (id : ProcessId) : (s.unhook id).Located := by
  unfold Traffic.unhook
  simp only
  split
  · exact h.quiet [.unhooked _ id] rfl (by simp [Note.isWay]) rfl fun _ => rfl
  · exact h.quiet [] rfl (by simp) rfl fun _ => rfl

theorem Located.unhookAll (ids : List ProcessId) :
    ∀ {s : Traffic}, s.Located → (s.unhookAll ids).Located := by
  induction ids with
  | nil => exact fun h => h
  | cons id rest ih => exact fun h => ih (h.unhook id)

/-- Queues go with their owners, and that is told. -/
theorem Located.destroyed (h : s.Located) (ends : ProcessId → Bool) {r : Registry} {n : Note}
    (hw : whereabouts (n :: s.journal) = (whereabouts s.journal).map (Parcel.destroy ends))
    (hr : raised (n :: s.journal) = raised s.journal)
    (ht : takings (n :: s.journal) = takings s.journal)
    (hd : discards (n :: s.journal) = discards s.journal)
    (hqueue : ∀ id, queueOf (r.get? id) =
      if ends id then [] else queueOf (s.processes.get? id)) :
    Located ({ s with processes := r }.note n) := by
  obtain ⟨⟨horder, hitems⟩, hgone, hothers⟩ := map_destroy h.order ends
  rw [← hw] at horder hitems hgone hothers
  refine ⟨horder, ?_, ?_, ?_, fun id => ?_, fun id => ?_, ?_⟩
  · exact hitems.trans (h.items.trans hr.symm)
  · exact (congrArg List.length (hothers .dropped (by rintro ⟨⟩) (by rintro ⟨⟩))).trans h.dropped
  · exact (hothers .inbox (by rintro ⟨⟩) (by rintro ⟨⟩)).trans h.inbox
  · refine (hgone id).trans ?_
    rw [h.queue]
    exact (hqueue id).symm
  · show eventsFor id (placed .taken (whereabouts (n :: s.journal))) =
      eventsFor id (takings (n :: s.journal))
    rw [hothers _ (by rintro ⟨⟩) (by rintro ⟨⟩), ht]
    exact h.taken id
  · exact (hothers .discarded (by rintro ⟨⟩) (by rintro ⟨⟩)).trans (h.discarded.trans hd.symm)

theorem Located.finish (h : s.Located) (id : ProcessId) (status : Word) :
    (s.finish id status).Located := by
  have herased : ((s.erase id).note (.terminated id status)).Located := by
    refine h.destroyed (fun owner => owner == id) rfl rfl rfl rfl fun j => ?_
    show queueOf ((s.processes.erase id).get? j) = _
    rw [Registry.get?_erase]
    by_cases hj : j = id
    · simp [hj, queueOf]
    · simp [hj]
  exact herased.unhook id

theorem Located.release (h : s.Located) : s.release.Located := by
  have hunhooked : (s.unhookAll s.processes.ids).Located := Located.unhookAll _ h
  exact hunhooked.destroyed (fun _ => true) rfl rfl rfl rfl fun _ => rfl

/-- What a process has taken and what is still in its queue was raised for it in that order. -/
theorem Located.sublist_raised (h : s.Located) (id : ProcessId) :
    (eventsFor id (takings s.journal) ++ queueOf (s.processes.get? id)).Sublist
      (eventsFor id (raised s.journal)) := by
  have hof : ∀ r, eventsFor id (placed r (whereabouts s.journal)) =
      (((whereabouts s.journal).filter fun x => x.owner == id).filter
        fun x => x.place == r).map Parcel.event := by
    intro r
    rw [eventsFor_placed, List.filter_filter]
    simp only [Bool.and_comm]
  have hall : eventsFor id (raised s.journal) =
      ((whereabouts s.journal).filter fun x => x.owner == id).map Parcel.event := by
    rw [← h.items, eventsFor, List.filter_map, List.map_map]
    rfl
  have horder : ((whereabouts s.journal).filter fun x => x.owner == id).Pairwise
      fun x y => (x.place == .queue) = true → ¬ (y.place == .taken) = true := by
    refine (h.order.filter _).imp_of_mem fun {x y} hx hy hxy hqueue htaken => ?_
    have hx := beq_iff_eq.1 (List.mem_filter.1 hx).2
    have hy := beq_iff_eq.1 (List.mem_filter.1 hy).2
    exact hxy.queue (hx.trans hy.symm) (beq_iff_eq.1 hqueue) (beq_iff_eq.1 htaken)
  rw [← h.taken, ← h.queue, hof, hof, hall, ← List.map_append]
  refine (filter_append_filter_sublist horder fun x ht hq => ?_).map _
  cases (beq_iff_eq.1 ht).symm.trans (beq_iff_eq.1 hq)

theorem located_start (now : Option Instant) (capacity : Word) :
    Located ⟨now, .empty, .new capacity, [], []⟩ :=
  ⟨.nil, rfl, rfl, rfl, fun _ => rfl, fun _ => rfl, rfl⟩

end Traffic

end Nucleus
