import Mathlib.Data.List.Sort

/-!
# Order on a circle

Numbers that are counted up and wrap around are compared by the sign of their difference
(`serialBefore`). This is no order of all numbers: going round the circle in three steps, each
number is before the next one. Inside of a window of half of the circle it is the order of the
distances from the beginning of the window (`serialBefore_iff`).

`SerialOrdered.orderedInsert` is about lists in such an order. A list that is in order stays so when
an element is inserted in front of the first one that it is before, as long as all keys are in one
window.
-/

set_option autoImplicit false

namespace OsTasks.Lib

/-- The difference is negative as a signed number. -/
def serialBefore (x y : UInt64) : Bool := 9223372036854775808 ≤ x - y

/-- The number is in the half of the circle that starts at `base`. -/
def InWindow (base x : UInt64) : Prop := x - base < 9223372036854775808

instance (base x : UInt64) : Decidable (InWindow base x) := inferInstanceAs (Decidable (_ < _))

section Window

variable {base x y z : UInt64}

theorem serialBefore_iff (first : InWindow base x) (second : InWindow base y) :
    serialBefore x y = true ↔ (x - base).toNat < (y - base).toNat := by
  rw [InWindow, UInt64.lt_iff_toNat_lt] at first second
  rw [serialBefore, decide_eq_true_iff, UInt64.le_iff_toNat_le]
  have lower := UInt64.toNat_lt x
  have lower' := UInt64.toNat_lt y
  have lower'' := UInt64.toNat_lt base
  rw [UInt64.toNat_sub] at first second
  rw [UInt64.toNat_sub, UInt64.toNat_sub, UInt64.toNat_sub]
  simp only [UInt64.reduceToNat] at first second ⊢
  omega

end Window

/-! ## Lists in order -/

section Lists

variable {α : Type*} (key : α → UInt64)

/-- No element stands behind one that it is before. -/
def SerialOrdered (list : List α) : Prop :=
  list.Pairwise fun a b => serialBefore (key b) (key a) = false

variable {key} {base : UInt64} {p : α} {list list' : List α}

theorem SerialOrdered.sublist (ordered : SerialOrdered key list) (shorter : list'.Sublist list) :
    SerialOrdered key list' := List.Pairwise.sublist shorter ordered

theorem SerialOrdered.congr {key' : α → UInt64} (ordered : SerialOrdered key list)
    (same : ∀ a ∈ list, key' a = key a) : SerialOrdered key' list :=
  List.Pairwise.imp_of_mem (fun first second before => by rwa [same _ first, same _ second]) ordered

/-- **Insertion in front of the first element that is later.** -/
theorem SerialOrdered.orderedInsert (ordered : SerialOrdered key list)
    (window : ∀ a ∈ p :: list, InWindow base (key a)) :
    SerialOrdered key (list.orderedInsert (fun a b => serialBefore (key a) (key b) = true) p) := by
  have inserted := window p List.mem_cons_self
  induction list with
  | nil => exact List.pairwise_singleton _ p
  | cons b rest ih =>
      have here := window b (by simp)
      obtain ⟨first, later⟩ := List.pairwise_cons.mp ordered
      rw [List.orderedInsert]
      split
      · next before =>
          -- The inserted element is before `b`, and no other one is.
          refine List.pairwise_cons.mpr ⟨fun c member => ?_, ordered⟩
          have there := window c (List.mem_cons_of_mem p member)
          have less := (serialBefore_iff inserted here).mp before
          rw [Bool.eq_false_iff, ne_eq, serialBefore_iff there inserted]
          rcases List.mem_cons.mp member with rfl | inRest
          · omega
          · have notLess := first c inRest
            rw [Bool.eq_false_iff, ne_eq, serialBefore_iff there here] at notLess
            omega
      · next behind =>
          have rest' := ih later fun a member => window a (by
            rcases List.mem_cons.mp member with rfl | inRest
            · exact List.mem_cons_self
            · exact List.mem_cons_of_mem _ (List.mem_cons_of_mem _ inRest))
          refine List.pairwise_cons.mpr ⟨fun c member => ?_, rest'⟩
          rcases (List.mem_orderedInsert _).mp member with rfl | inRest
          · exact Bool.eq_false_iff.mpr behind
          · exact first c inRest

/-- The first element is as early as any. -/
theorem SerialOrdered.head (ordered : SerialOrdered key (p :: list)) :
    ∀ a ∈ p :: list, serialBefore (key a) (key p) = false := by
  intro a member
  rcases List.mem_cons.mp member with rfl | later
  · rw [serialBefore, UInt64.sub_self]
    rfl
  · exact (List.pairwise_cons.mp ordered).1 a later

end Lists

end OsTasks.Lib
