import ExactCover.Proofs.Polyomino.Symmetry
import Mathlib.Dynamics.PeriodicPts.Defs
import Mathlib.GroupTheory.Index
import Mathlib.GroupTheory.SpecificGroups.Dihedral

/-!
# The orbit of a shape

By the laws of turns and flips, the symmetries of a square act on shapes: a rotation turns a shape
that many times, and a reflection turns it and then flips it.  The orientations of a shape are its
orbit (`Shape.orbit_eq`), which is the same as all that turns and flips lead to in any number and
order (`Shape.mem_orientations_iff_reaches`).  So the orbits part the shapes among them, and an
orbit has one, two, four or eight members, for the group has eight and the size of an orbit divides
that of the group (`Shape.length_orientations_mem`).
-/

set_option autoImplicit false

namespace ExactCover.Shape

variable {s t : Shape}

/-! ## All that turns and flips lead to -/

/-- **The shapes that `s` can be brought to** by any number of turns and flips, one after
another. -/
inductive Reaches (s : Shape) : Shape → Prop
  /-- Doing nothing. -/
  | refl : Reaches s s
  /-- A turn more. -/
  | turn {t : Shape} (h : Reaches s t) : Reaches s t.turn
  /-- A flip more. -/
  | flip {t : Shape} (h : Reaches s t) : Reaches s t.flip

/-- **Turns and flips lead to the orientations, and to nothing else.** -/
theorem mem_orientations_iff_reaches : t ∈ s.orientations ↔ s.Reaches t := by
  constructor
  · have hturns {u : Shape} (hu : u ∈ s.turns) : s.Reaches u := by
      rcases mem_turns_iff.1 hu with rfl | rfl | rfl | rfl
      · exact .refl
      · exact .turn .refl
      · exact .turn (.turn .refl)
      · exact .turn (.turn (.turn .refl))
    intro h
    rcases mem_orientations_iff.1 h with h | ⟨u, hu, rfl⟩
    · exact hturns h
    · exact .flip (hturns hu)
  · intro h
    induction h with
    | refl => exact s.self_mem_orientations
    | turn _ ih => exact turn_mem_orientations ih
    | flip _ ih => exact flip_mem_orientations ih

/-- **Two shapes have the same orientations, or none in common.** -/
theorem orientations_eq_or_disjoint (s t : Shape) :
    s.orientations = t.orientations ∨ s.orientations.Disjoint t.orientations := by
  by_cases h : ∃ u, u ∈ s.orientations ∧ u ∈ t.orientations
  · obtain ⟨u, hs, ht⟩ := h
    exact .inl ((orientations_eq_of_mem hs).symm.trans (orientations_eq_of_mem ht))
  · exact .inr fun u hs ht ↦ h ⟨u, hs, ht⟩

/-! ## The symmetries of a square -/

theorem isPeriodicPt_turn (s : Shape) : Function.IsPeriodicPt turn 4 s := s.turn_turn_turn_turn

/-- Rotations add up, and four quarter turns count as none. -/
theorem iterate_turn_add (i j : ZMod 4) (s : Shape) :
    turn^[(i + j).val] s = turn^[i.val] (turn^[j.val] s) := by
  rw [ZMod.val_add, (isPeriodicPt_turn s).iterate_mod_apply, Function.iterate_add_apply]

/-- A flip between two turns by the same number of quarter turns undoes them. -/
theorem iterate_turn_flip_iterate_turn (n : Nat) (s : Shape) :
    turn^[n] (turn^[n] s).flip = s.flip := by
  induction n with
  | zero => rfl
  | succ n ih => rw [Function.iterate_succ_apply, Function.iterate_succ_apply', turn_flip_turn, ih]

/-- Turning a flipped shape is flipping the shape turned the other way. -/
theorem iterate_turn_flip (i : ZMod 4) (s : Shape) :
    turn^[i.val] s.flip = (turn^[(-i).val] s).flip :=
  calc turn^[i.val] s.flip = turn^[i.val] (turn^[(i + -i).val] s).flip := by
        rw [add_neg_cancel]
        rfl
    _ = turn^[i.val] (turn^[i.val] (turn^[(-i).val] s)).flip := by rw [iterate_turn_add]
    _ = (turn^[(-i).val] s).flip := iterate_turn_flip_iterate_turn _ _

/-- **The symmetries of a square act on shapes.** -/
instance : MulAction (DihedralGroup 4) Shape where
  smul
    | .r i, s => turn^[i.val] s
    | .sr i, s => (turn^[i.val] s).flip
  one_smul _ := rfl
  mul_smul g h s := by
    cases g with
    | r i =>
      cases h with
      | r j => exact iterate_turn_add i j s
      | sr j =>
        -- The turns on the left of the flip become turns the other way on its right.
        change (turn^[(j - i).val] s).flip = turn^[i.val] (turn^[j.val] s).flip
        rw [iterate_turn_flip, ← iterate_turn_add, neg_add_eq_sub]
    | sr i =>
      cases h with
      | r j => exact congrArg flip (iterate_turn_add i j s)
      | sr j =>
        change turn^[(j - i).val] s = (turn^[i.val] (turn^[j.val] s).flip).flip
        rw [iterate_turn_flip, flip_flip, ← iterate_turn_add, neg_add_eq_sub]

/-- **The orientations of a shape are its orbit.** -/
theorem orbit_eq (s : Shape) : MulAction.orbit (DihedralGroup 4) s = {t | t ∈ s.orientations} := by
  have hturned (n : Nat) : turn^[n] s ∈ s.orientations := by
    induction n with
    | zero => exact s.self_mem_orientations
    | succ n ih => exact Function.iterate_succ_apply' turn n s ▸ turn_mem_orientations ih
  ext t
  rw [MulAction.mem_orbit_iff, Set.mem_ofPred_eq]
  constructor
  · rintro ⟨i | i, rfl⟩
    · exact hturned i.val
    · exact flip_mem_orientations (hturned i.val)
  · have hturns {u : Shape} (hu : u ∈ s.turns) : ∃ i : ZMod 4, turn^[i.val] s = u := by
      rcases mem_turns_iff.1 hu with rfl | rfl | rfl | rfl
      · exact ⟨0, rfl⟩
      · exact ⟨1, rfl⟩
      · exact ⟨2, rfl⟩
      · exact ⟨3, rfl⟩
    intro h
    rcases mem_orientations_iff.1 h with h | ⟨u, hu, rfl⟩
    · obtain ⟨i, rfl⟩ := hturns h
      exact ⟨.r i, rfl⟩
    · obtain ⟨i, rfl⟩ := hturns hu
      exact ⟨.sr i, rfl⟩

/-! ## Counting -/

/-- **A shape has one, two, four or eight orientations.** -/
theorem length_orientations_mem (s : Shape) : s.orientations.length ∈ [1, 2, 4, 8] := by
  have hlength : (MulAction.orbit (DihedralGroup 4) s).ncard = s.orientations.length := by
    have hset : {t | t ∈ s.orientations} = (s.orientations.toFinset : Set Shape) := by
      ext t
      simp
    rw [orbit_eq, hset, Set.ncard_coe_finset, List.toFinset_card_of_nodup s.nodup_orientations]
  have hcard : Nat.card (DihedralGroup 4) = 2 ^ 3 := DihedralGroup.nat_card
  have hdvd : s.orientations.length ∣ 2 ^ 3 := by
    rw [← hlength, ← MulAction.index_stabilizer, ← hcard]
    exact Subgroup.index_dvd_card _
  obtain ⟨k, hk, hpow⟩ := (Nat.dvd_prime_pow Nat.prime_two).1 hdvd
  rw [hpow]
  interval_cases k <;> decide

end ExactCover.Shape
