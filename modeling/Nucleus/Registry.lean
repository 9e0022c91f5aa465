import Nucleus.Process

/-!
# Nucleus.Registry

The processes there are, in the order of their identifiers, at most one with each. Operations that
change a process in place have to keep its identifier; for the ones of `Nucleus.Process` that is
found by `simp`.
-/

namespace Nucleus

structure Registry where
  toList : List Process
  sorted : toList.Pairwise fun p q => p.id < q.id
deriving DecidableEq

namespace Registry

abbrev Entry := Process

def empty : Registry :=
  ⟨[], .nil⟩

def size (r : Registry) : Nat :=
  r.toList.length

def isEmpty (r : Registry) : Bool :=
  r.toList.isEmpty

def ids (r : Registry) : List ProcessId :=
  r.toList.map Process.id

def get? (r : Registry) (id : ProcessId) : Option Process :=
  r.toList.find? fun p => p.id == id

/-- Puts a process in front of the first one with a greater identifier, in the place of the one with
the same identifier if there is one. -/
def insertList (p : Process) : List Process → List Process
  | [] => [p]
  | q :: rest =>
    if p.id < q.id then p :: q :: rest
    else if p.id = q.id then p :: rest
    else q :: insertList p rest

theorem mem_insertList {p q : Process} {l : List Process} (h : q ∈ insertList p l) :
    q = p ∨ q ∈ l := by
  induction l with
  | nil => simpa [insertList] using h
  | cons a rest ih =>
    unfold insertList at h
    split at h
    · simpa using h
    · split at h
      · simp only [List.mem_cons] at h ⊢
        rcases h with h | h
        · exact .inl h
        · exact .inr (.inr h)
      · simp only [List.mem_cons] at h ⊢
        rcases h with h | h
        · exact .inr (.inl h)
        · rcases ih h with h | h
          · exact .inl h
          · exact .inr (.inr h)

theorem sorted_insertList (p : Process) {l : List Process}
    (h : l.Pairwise fun p q => p.id < q.id) :
    (insertList p l).Pairwise fun p q => p.id < q.id := by
  induction l with
  | nil => simp [insertList]
  | cons a rest ih =>
    have ha := List.pairwise_cons.1 h
    unfold insertList
    split
    · rename_i hlt
      refine List.pairwise_cons.2 ⟨?_, h⟩
      intro q hq
      rcases List.mem_cons.1 hq with rfl | hq
      · exact hlt
      · exact UInt64.lt_trans hlt (ha.1 q hq)
    · split
      · rename_i heq
        refine List.pairwise_cons.2 ⟨?_, ha.2⟩
        intro q hq
        rw [heq]
        exact ha.1 q hq
      · rename_i hlt hne
        refine List.pairwise_cons.2 ⟨?_, ih ha.2⟩
        intro q hq
        rcases mem_insertList hq with rfl | hq
        · rw [UInt64.lt_iff_toNat_lt] at hlt ⊢
          rw [← UInt64.toNat_inj] at hne
          omega
        · exact ha.1 q hq

/-- The registry with a process under its identifier, in the place of what was there. -/
def insert (r : Registry) (p : Process) : Registry :=
  ⟨insertList p r.toList, sorted_insertList p r.sorted⟩

def erase (r : Registry) (id : ProcessId) : Registry :=
  ⟨r.toList.filter fun p => p.id != id, r.sorted.filter _⟩

theorem sorted_map {f : Process → Process} (hf : ∀ p, (f p).id = p.id) {l : List Process}
    (h : l.Pairwise fun p q => p.id < q.id) : (l.map f).Pairwise fun p q => p.id < q.id := by
  rw [List.pairwise_map]
  exact h.imp fun {p q} hpq => by rw [hf p, hf q]; exact hpq

def map (r : Registry) (f : Process → Process)
    (hf : ∀ p, (f p).id = p.id := by simp -implicitDefEqProofs) : Registry :=
  ⟨r.toList.map f, sorted_map hf r.sorted⟩

theorem id_ite {f : Process → Process} (hf : ∀ p, (f p).id = p.id) (c : Process → Bool)
    (p : Process) : (if c p then f p else p).id = p.id := by
  split
  · exact hf p
  · rfl

def mapIf (r : Registry) (c : Process → Bool) (f : Process → Process)
    (hf : ∀ p, (f p).id = p.id := by simp -implicitDefEqProofs) : Registry :=
  r.map (fun p => if c p then f p else p) (id_ite hf c)

def modify (r : Registry) (id : ProcessId) (f : Process → Process)
    (hf : ∀ p, (f p).id = p.id := by simp -implicitDefEqProofs) : Registry :=
  r.mapIf (fun p => p.id == id) f hf

end Registry
end Nucleus
