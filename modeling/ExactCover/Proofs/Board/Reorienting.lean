import ExactCover.Proofs.Board.Symmetry
import ExactCover.Proofs.Polyomino.Orbits

/-!
# Pieces turned over before they are laid

A piece comes with the orientations of its shape, and a placement says by their numbers which piece
it lays and in which orientation.  The shape itself is not looked at any more.  So it does not
matter which of its orientations a piece was made from: the orientations of an orientation are the
same, in the same order, and each number stands for the same shape.  A board has the same placements
for both (`Board.placements_eq_of_reoriented`), and each placement covers the same cells
(`Placement.cells_eq_of_reoriented`).
-/

set_option autoImplicit false

namespace ExactCover

variable {pieces pieces' : List Piece}

/-- **A piece made from an orientation of a shape has the orientations of the shape.** -/
theorem Piece.orientations_ofShape_eq {s t : Shape} (h : t ∈ s.orientations)
    (name name' : Char) : (ofShape name' t).orientations = (ofShape name s).orientations := by
  have horientations := Shape.orientations_eq_of_mem h
  rw [(ofShape name' t).orientations_eq, (ofShape name s).orientations_eq]
  exact horientations

/-- The orientations of each of the pieces. -/
def orientationsOf (pieces : List Piece) : List (List Shape) := pieces.map (·.orientations)

/-- **Reoriented pieces have the same orientations.** -/
theorem orientationsOf_eq_of_reoriented (h : List.Forall₂ Piece.Reoriented pieces pieces') :
    orientationsOf pieces' = orientationsOf pieces := by
  induction h with
  | nil => rfl
  | @cons piece piece' pieces pieces' hpiece _ ih =>
    have horientations : piece'.orientations = piece.orientations := by
      rw [piece'.orientations_eq, piece.orientations_eq, Shape.orientations_eq_of_mem hpiece]
    rw [orientationsOf, orientationsOf, List.map_cons, List.map_cons, horientations]
    exact congrArg (_ :: ·) ih

/-- What a placement covers is said by the orientations of the pieces. -/
theorem Placement.offsets_eq (pieces : List Piece) (p : Placement) :
    p.offsets pieces = (((orientationsOf pieces)[p.piece]?.bind fun shapes ↦
      shapes[p.orientation]?).map fun shape ↦ shape.cells.toList).getD [] := by
  rw [offsets, laid?, orientationsOf, List.getElem?_map]
  rcases pieces[p.piece]? with _ | piece
  · rfl
  · simp only [Option.bind_some, Option.map_some]
    cases piece.orientations[p.orientation]? <;> rfl

theorem Placement.cells_eq_of_reoriented (h : List.Forall₂ Piece.Reoriented pieces pieces')
    (p : Placement) : p.cells pieces' = p.cells pieces := by
  rw [cells, cells, offsets_eq, offsets_eq, orientationsOf_eq_of_reoriented h]

namespace Board

/-- So are the placements on a board. -/
theorem placements_eq (b : Board) (pieces : List Piece) :
    b.placements pieces = (orientationsOf pieces).zipIdx.flatMap fun (shapes, i) ↦
      shapes.zipIdx.flatMap fun (shape, o) ↦
        ((b.corners shape).filter (b.fits shape)).map fun c ↦ ⟨i, o, c.x, c.y⟩ := by
  rw [placements, orientationsOf, List.zipIdx_map, List.flatMap_map]
  rfl

theorem placements_eq_of_reoriented (h : List.Forall₂ Piece.Reoriented pieces pieces') (b : Board) :
    b.placements pieces' = b.placements pieces := by
  rw [placements_eq, placements_eq, orientationsOf_eq_of_reoriented h]

end Board

/-- **The orientations of a shape are all of its images.**  They are listed in ascending order; they
are the shapes to which turns and flips lead, in any number and order; there are one, two, four or
eight of them; and each has the same orientations.  So two shapes have the same orientations or none
in common.  A piece can be made from any orientation of its shape: it has the same orientations
then, and with any of the pieces so exchanged, a board has the same placements, and every placement
the same cells. -/
theorem Shape.orientations_and_placements :
    (∀ s : Shape, Ascending s.orientations ∧ (∀ t, t ∈ s.orientations ↔ s.Reaches t) ∧
      s.orientations.length ∈ [1, 2, 4, 8] ∧
      ∀ t ∈ s.orientations, t.orientations = s.orientations) ∧
    (∀ s t : Shape, s.orientations = t.orientations ∨ s.orientations.Disjoint t.orientations) ∧
    (∀ (s t : Shape) (name name' : Char), t ∈ s.orientations →
      (Piece.ofShape name' t).orientations = (Piece.ofShape name s).orientations) ∧
    ∀ pieces pieces' : List Piece, List.Forall₂ Piece.Reoriented pieces pieces' →
      (∀ b : Board, b.placements pieces' = b.placements pieces) ∧
      ∀ p : Placement, p.cells pieces' = p.cells pieces := by
  refine ⟨fun s ↦ ⟨s.ascending_orientations, fun t ↦ mem_orientations_iff_reaches,
    s.length_orientations_mem, fun t ht ↦ orientations_eq_of_mem ht⟩, orientations_eq_or_disjoint,
    fun s t name name' ht ↦ Piece.orientations_ofShape_eq ht name name', fun pieces pieces' h ↦ ?_⟩
  exact ⟨Board.placements_eq_of_reoriented h, Placement.cells_eq_of_reoriented h⟩

/-- A domino has two orientations, and one that is made upright goes on the strip in the same three
ways as one that is made lying. -/
theorem Shape.orientations_and_placements_strip :
    (Piece.domino '#').shape.turn ∈ (Piece.domino '#').shape.orientations ∧
    (Piece.domino '#').shape.turn.orientations.length = 2 ∧
    Board.strip.placements [.ofShape '.' (Piece.domino '#').shape.turn] =
      [⟨0, 1, 1, 0⟩, ⟨0, 1, 2, 0⟩, ⟨0, 1, 3, 0⟩] := by
  obtain ⟨hshape, -, -, hpieces⟩ := Shape.orientations_and_placements
  have hturned := turn_mem_orientations (Piece.domino '#').shape.self_mem_orientations
  have horientations := (hshape _).2.2.2 _ hturned
  have hplacements := (hpieces [.domino '#'] [.ofShape '.' (Piece.domino '#').shape.turn]
    (.cons hturned .nil)).1 Board.strip
  refine ⟨hturned, ?_, ?_⟩
  · rw [horientations]
    decide +kernel
  · rw [hplacements]
    decide +kernel

end ExactCover
