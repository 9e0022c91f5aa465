import Nucleus.Process

/-!
# Nucleus.Process.Record

What a process may learn about another one: six words, written to its memory on request.

* `ofWords?_eq_some_iff`: the six words of a record are read back to it, and nothing else is read
  as a record.
-/

namespace Nucleus

structure ProcessRecord where
  id : ProcessId
  state : ProcessState
  userStack : Word
  kernelStack : Word
  pageDirectory : Word
  parent : ProcessId
deriving DecidableEq

def Process.record (p : Process) : ProcessRecord where
  id := p.id
  state := p.state
  userStack := p.space.userStack.word
  kernelStack := p.space.kernelStack.word
  pageDirectory := p.space.pageDirectory.word
  parent := p.parent

namespace ProcessRecord

def size : Nat := 6

def toWords (r : ProcessRecord) : List Word :=
  [r.id, r.state.toWord, r.userStack, r.kernelStack, r.pageDirectory, r.parent]

/-- The record kept in six words; the second one has to name a state. -/
def ofWords? : List Word → Option ProcessRecord
  | [id, state, userStack, kernelStack, pageDirectory, parent] =>
    match ProcessState.ofWord? state with
    | none => none
    | some state => some ⟨id, state, userStack, kernelStack, pageDirectory, parent⟩
  | _ => none

theorem length_toWords (r : ProcessRecord) : r.toWords.length = size := rfl

theorem ofWords?_eq_some_iff {ws : List Word} {r : ProcessRecord} :
    ofWords? ws = some r ↔ ws = r.toWords := by
  constructor
  · intro h
    unfold ofWords? at h
    split at h
    · split at h
      · cases h
      · rename_i hs
        cases h
        rw [ProcessState.ofWord?_eq_some_iff.1 hs]
        rfl
    · cases h
  · rintro rfl
    have h : ProcessState.ofWord? r.state.toWord = some r.state :=
      ProcessState.ofWord?_eq_some_iff.2 rfl
    simp only [toWords, ofWords?, h]

end ProcessRecord
end Nucleus
