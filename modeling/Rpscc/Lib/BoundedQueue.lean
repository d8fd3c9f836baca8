import Mathlib.Data.List.Basic

/-!
# A bounded first-in-first-out queue

What a buffer between two threads is for.  `BoundedQueue α bound` is the history of such a queue:
everything that was put in, and everything that was taken out again.  What comes out is an initial
segment of what went in, and the two are never more than `bound` apart; both are fields, so that a
machine whose states can be read as a `BoundedQueue` at all never loses, repeats or reorders
anything and never holds too much.

`BoundedQueue.Step` is the transition of the queue.  A machine refines it if every step of the
machine is a `Step` of what it is read as, or leaves that alone.
-/

set_option autoImplicit false

universe u

/-- The history of a first-in-first-out queue for at most `bound` elements. -/
@[ext] structure BoundedQueue (α : Type u) (bound : ℕ) where
  /-- Everything that was put in, the oldest first. -/
  put : List α
  /-- Everything that was taken out, the oldest first. -/
  got : List α
  /-- What came out is what went in first. -/
  got_le : got <+: put
  /-- There is room for what has not come out yet. -/
  length_le : put.length ≤ got.length + bound

namespace BoundedQueue

variable {α : Type u} {bound : ℕ}

/-- What is in the queue, the oldest first. -/
def items (q : BoundedQueue α bound) : List α := q.put.drop q.got.length

theorem length_items_le (q : BoundedQueue α bound) : q.items.length ≤ bound := by
  have h := q.length_le
  rw [items, List.length_drop]
  omega

/-- One more element goes in, or the oldest comes out. -/
inductive Step (q q' : BoundedQueue α bound) : Prop
  | put (a : α) (hput : q'.put = q.put ++ [a]) (hgot : q'.got = q.got)
  | get (a : α) (hput : q'.put = q.put) (hgot : q'.got = q.got ++ [a])

end BoundedQueue
