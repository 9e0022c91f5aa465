import Nucleus.Word

/-!
# Nucleus.BoundedQueue

First in, first out, with room for a fixed number of items. What is pushed without room is lost;
callers ask `hasRoom` first where that matters.

* `items_push`, `items_dropFront`: each operation on the list of items, oldest first.
-/

namespace Nucleus

structure BoundedQueue (α : Type) where
  /-- The items, the oldest first. -/
  items : List α
  capacity : Nat
  fits : items.length ≤ capacity
deriving DecidableEq

namespace BoundedQueue

variable {α : Type}

/-- An empty queue; a capacity of zero makes room for one item. -/
def new (capacity : Word) : BoundedQueue α :=
  ⟨[], max capacity.toNat 1, Nat.zero_le _⟩

def size (q : BoundedQueue α) : Nat :=
  q.items.length

def hasRoom (q : BoundedQueue α) : Bool :=
  decide (q.items.length < q.capacity)

/-- The queue with `a` behind all other items, or as it was if there is no room. -/
def push (q : BoundedQueue α) (a : α) : BoundedQueue α :=
  if h : q.items.length < q.capacity then
    ⟨q.items ++ [a], q.capacity, by rw [List.length_append]; exact h⟩
  else
    q

def front? (q : BoundedQueue α) : Option α :=
  q.items.head?

def dropFront (q : BoundedQueue α) : BoundedQueue α :=
  ⟨q.items.tail, q.capacity, by have := q.fits; rw [List.length_tail]; omega⟩

def clear (q : BoundedQueue α) : BoundedQueue α :=
  ⟨[], q.capacity, Nat.zero_le _⟩

theorem items_push (q : BoundedQueue α) (a : α) :
    (q.push a).items = if q.hasRoom then q.items ++ [a] else q.items := by
  unfold push hasRoom
  by_cases h : q.items.length < q.capacity <;> simp [h]

@[simp] theorem capacity_push (q : BoundedQueue α) (a : α) : (q.push a).capacity = q.capacity := by
  unfold push
  split <;> rfl

theorem items_dropFront (q : BoundedQueue α) : q.dropFront.items = q.items.tail := rfl

end BoundedQueue
end Nucleus
