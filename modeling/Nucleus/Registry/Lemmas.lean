import Nucleus.Registry

/-!
# Nucleus.Registry.Lemmas

The registry seen through `get?`: one lemma for each operation that says what it does there.

* `get?_insert`, `get?_erase`, `get?_modify`, `get?_map`.
* `get?_eq_some_iff`: a process is found exactly under its own identifier.
* `eq_of_get?`: what is found under each identifier decides the registry.
-/

namespace Nucleus
namespace Registry

theorem get?_eq_some_iff {r : Registry} {id : ProcessId} {p : Process} :
    r.get? id = some p ↔ p ∈ r.toList ∧ p.id = id := by
  unfold get?
  constructor
  · intro h
    refine ⟨List.mem_of_find?_eq_some h, ?_⟩
    have := List.find?_some h
    simpa using this
  · rintro ⟨hp, rfl⟩
    have hs := r.sorted
    generalize r.toList = l at hp hs
    induction l with
    | nil => cases hp
    | cons a rest ih =>
      have ha := List.pairwise_cons.1 hs
      rcases List.mem_cons.1 hp with rfl | hp
      · simp
      · have hne : a.id ≠ p.id := fun h => by
          have := ha.1 p hp
          rw [h] at this
          exact UInt64.lt_irrefl _ this
        rw [List.find?_cons_of_neg (by simpa using hne)]
        exact ih hp ha.2

theorem id_of_get? {r : Registry} {id : ProcessId} {p : Process} (h : r.get? id = some p) :
    p.id = id :=
  (get?_eq_some_iff.1 h).2

theorem get?_empty (id : ProcessId) : empty.get? id = none := rfl

theorem get?_map {r : Registry} {f : Process → Process} {hf : ∀ p, (f p).id = p.id}
    (id : ProcessId) : (r.map f hf).get? id = (r.get? id).map f := by
  unfold get? map
  rw [List.find?_map]
  congr 1
  congr 1
  funext p
  simp [hf p]

theorem get?_modify {r : Registry} {f : Process → Process} {hf : ∀ p, (f p).id = p.id}
    (id j : ProcessId) :
    (r.modify id f hf).get? j = if j = id then (r.get? j).map f else r.get? j := by
  unfold modify mapIf
  rw [get?_map]
  cases h : r.get? j with
  | none => simp
  | some p =>
    have hp := id_of_get? h
    by_cases hj : j = id
    · simp [hp, hj]
    · simp [hp, hj]

theorem get?_modify_eq_some {r : Registry} {f : Process → Process} (hf : ∀ p, (f p).id = p.id)
    {id j : ProcessId} {q : Process} (h : (r.modify id f hf).get? j = some q) :
    ∃ p, r.get? j = some p ∧ (j ≠ id ∧ q = p ∨ j = id ∧ q = f p) := by
  rw [get?_modify] at h
  split at h
  · rename_i hj
    obtain ⟨p, hp, rfl⟩ := Option.map_eq_some_iff.1 h
    exact ⟨p, hp, .inr ⟨hj, rfl⟩⟩
  · rename_i hj
    exact ⟨q, h, .inl ⟨hj, rfl⟩⟩

theorem get?_erase {r : Registry} (id j : ProcessId) :
    (r.erase id).get? j = if j = id then none else r.get? j := by
  apply Option.ext
  intro p
  rw [get?_eq_some_iff]
  by_cases hj : j = id
  · subst hj
    simp [erase]
  · simp only [if_neg hj, get?_eq_some_iff, erase, List.mem_filter]
    constructor
    · rintro ⟨⟨hp, _⟩, rfl⟩
      exact ⟨hp, rfl⟩
    · rintro ⟨hp, rfl⟩
      exact ⟨⟨hp, by simpa using hj⟩, rfl⟩

theorem find?_insertList (p : Process) (l : List Process) (id : ProcessId) :
    (insertList p l).find? (fun q => q.id == id) =
      if p.id = id then some p else l.find? (fun q => q.id == id) := by
  induction l with
  | nil => by_cases h : p.id = id <;> simp [insertList, h]
  | cons a rest ih =>
    unfold insertList
    split
    · by_cases h : p.id = id <;> simp [h]
    · split
      · rename_i heq
        by_cases h : p.id = id
        · simp [h]
        · have ha : ¬ a.id = id := fun ha => h (heq.trans ha)
          simp [h, ha]
      · rename_i hne
        by_cases h : p.id = id
        · have ha : ¬ a.id = id := fun ha => hne (h.trans ha.symm)
          simp [h, ha] at ih ⊢
          exact ih
        · simp only [List.find?_cons, ih, if_neg h]

theorem get?_insert {r : Registry} (p : Process) (j : ProcessId) :
    (r.insert p).get? j = if p.id = j then some p else r.get? j :=
  find?_insertList p r.toList j

/-- The process under an identifier in a sorted list is decided by what is found there. -/
theorem eq_of_get? {r s : Registry} (h : ∀ id, r.get? id = s.get? id) : r = s := by
  have hmem : ∀ p, p ∈ r.toList ↔ p ∈ s.toList := fun p => by
    constructor
    · intro hp
      have := (get?_eq_some_iff (r := r)).2 ⟨hp, rfl⟩
      rw [h] at this
      exact (get?_eq_some_iff.1 this).1
    · intro hp
      have := (get?_eq_some_iff (r := s)).2 ⟨hp, rfl⟩
      rw [← h] at this
      exact (get?_eq_some_iff.1 this).1
  obtain ⟨l, hl⟩ := r
  obtain ⟨m, hm⟩ := s
  simp only [mk.injEq]
  simp only at hmem
  clear h
  induction l generalizing m with
  | nil =>
    cases m with
    | nil => rfl
    | cons b m => exact absurd ((hmem b).2 (by simp)) (by simp)
  | cons a l ih =>
    cases m with
    | nil => exact absurd ((hmem a).1 (by simp)) (by simp)
    | cons b m =>
      have ha := List.pairwise_cons.1 hl
      have hb := List.pairwise_cons.1 hm
      have hab : a = b := by
        rcases List.mem_cons.1 ((hmem a).1 (by simp)) with h | h
        · exact h
        · rcases List.mem_cons.1 ((hmem b).2 (by simp)) with h' | h'
          · exact h'.symm
          · exact absurd (UInt64.lt_trans (hb.1 a h) (ha.1 b h')) (UInt64.lt_irrefl _)
      subst hab
      congr 1
      refine ih ha.2 m hb.2 fun p => ?_
      have hp := hmem p
      simp only [List.mem_cons] at hp
      constructor
      · intro h
        rcases hp.1 (.inr h) with rfl | h'
        · exact absurd (ha.1 p h) (UInt64.lt_irrefl _)
        · exact h'
      · intro h
        rcases hp.2 (.inr h) with rfl | h'
        · exact absurd (hb.1 p h) (UInt64.lt_irrefl _)
        · exact h'

theorem modify_congr {r : Registry} {id : ProcessId} {f g : Process → Process}
    {hf : ∀ p, (f p).id = p.id} {hg : ∀ p, (g p).id = p.id}
    (h : ∀ p, r.get? id = some p → f p = g p) : r.modify id f hf = r.modify id g hg := by
  refine eq_of_get? fun j => ?_
  rw [get?_modify, get?_modify]
  by_cases hj : j = id
  · subst hj
    rw [if_pos rfl, if_pos rfl]
    cases hp : r.get? j with
    | none => rfl
    | some p => exact congrArg some (h p hp)
  · rw [if_neg hj, if_neg hj]

end Registry
end Nucleus
