import Mathlib.Order.Basic

/-!
# Copies that never go back

A value changes over time, and every change makes a new version of it.  Copies of it are put into a
channel now and then, between other things, and each copy that comes out replaces the one before.
`InOrder had lo channel hi` says what a channel that is first in, first out looks like, when `lo` is
the version of the copy that came out last and `hi` the present one: the versions of the copies
inside go up from `lo` to `hi`.  `had v a` says that `a` was the value in version `v`.

`InOrder.append` puts present copies in, `InOrder.mono` goes on to a later version, and what comes
out is read off the definition.
-/

set_option autoImplicit false

universe u v

namespace Snapshots

variable {ι : Type u} {α : Type v}

/-- The copies in the channel are of versions that go up from `lo` to `hi`. -/
def InOrder [LE ι] (had : ι → α → Prop) : ι → List (Option α) → ι → Prop
  | lo, [], hi => lo ≤ hi
  | lo, none :: l, hi => InOrder had lo l hi
  | lo, some a :: l, hi => ∃ w, lo ≤ w ∧ had w a ∧ InOrder had w l hi

variable [Preorder ι] {had had' : ι → α → Prop} {hi hi' : ι}

theorem InOrder.mono (hle : hi ≤ hi') (hhad : ∀ w a, had w a → had' w a) :
    ∀ {l : List (Option α)} {lo : ι}, InOrder had lo l hi → InOrder had' lo l hi'
  | [], _, h => le_trans h hle
  | none :: l, _, h => InOrder.mono (l := l) hle hhad h
  | some _ :: _, _, ⟨w, hlo, ha, h⟩ => ⟨w, hlo, hhad w _ ha, h.mono hle hhad⟩

/-- What is put in is a copy of the present value, or none. -/
theorem InOrder.append {l' : List (Option α)} (hl' : ∀ a, some a ∈ l' → had hi a) :
    ∀ {l : List (Option α)} {lo : ι}, InOrder had lo l hi → InOrder had lo (l ++ l') hi
  | [], lo, h => by
    rw [List.nil_append]
    induction l' generalizing lo with
    | nil => exact h
    | cons x l' ih =>
      have hrest : ∀ a, some a ∈ l' → had hi a := fun a ha ↦ hl' a (List.mem_cons_of_mem _ ha)
      cases x with
      | none => exact ih hrest lo h
      | some a => exact ⟨hi, h, hl' a (List.mem_cons_self ..), ih hrest hi (le_refl hi)⟩
  | none :: l, _, h => InOrder.append hl' (l := l) h
  | some _ :: _, _, ⟨w, hlo, ha, h⟩ => ⟨w, hlo, ha, h.append hl'⟩

end Snapshots
