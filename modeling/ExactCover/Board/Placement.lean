import ExactCover.Board.Basic
import ExactCover.Log
import ExactCover.Polyomino.Piece
import ExactCover.Text.Describe

/-!
# Laying pieces on a board

A placement lays one piece, in one of its orientations, with the top left corner of its bounding box
on a given cell.  Pieces and orientations are meant by their positions in a list, so a placement
makes sense only beside a list of pieces, and may be wrong about it; and its corner is any cell at
all.  `Placement.footprint` gives the cells covered, and `Board.placements` lists the placements
that cover free cells only.

Coordinates are bounded.  `Placement.cells` is the footprint as long as it keeps below the bound,
which it does for everything that `Board.placements` lists.
-/

set_option autoImplicit false

namespace ExactCover

/-- A piece laid on a board. -/
structure Placement where
  /-- Which piece. -/
  piece : Nat
  /-- Which of its orientations. -/
  orientation : Nat
  /-- The column of the bounding box's left edge. -/
  x : Nat
  /-- The row of the bounding box's top edge. -/
  y : Nat
deriving DecidableEq

namespace Placement

/-- Placements are ordered by piece, then by orientation, then by `x` and by `y`. -/
instance : Key Placement :=
  Key.ofInjective (fun p ↦ (p.piece, p.orientation, p.x, p.y))
    (fun ⟨_, _, _, _⟩ ⟨_, _, _, _⟩ h ↦ by cases h; rfl)
    (fun p q ↦ (compare p.piece q.piece).then <| (compare p.orientation q.orientation).then <|
      (compare p.x q.x).then (compare p.y q.y))
    fun _ _ ↦ rfl

/-- All four numbers under their names. -/
instance : Describe Placement :=
  ⟨fun ⟨piece, orientation, x, y⟩ ↦
    s!"Placement \x7b piece: {piece}, orientation: {orientation}, x: {x}, y: {y} \x7d"⟩

/-- The corner of the placement. -/
def corner (p : Placement) : Cell := ⟨p.x, p.y⟩

/-- The piece that is laid and the shape it has that way, if there are such. -/
def laid? (pieces : List Piece) (p : Placement) : Option (Piece × Shape) :=
  pieces[p.piece]?.bind fun piece ↦
    piece.orientations[p.orientation]?.map fun shape ↦ (piece, shape)

/-- The offsets of the cells covered from the corner, in ascending order; none if there is no such
piece or orientation. -/
def offsets (pieces : List Piece) (p : Placement) : List Cell :=
  match p.laid? pieces with
  | none => []
  | some (_, shape) => shape.cells.toList

/-- **The cells covered**, in ascending order. -/
def footprint (pieces : List Piece) (p : Placement) : List Cell :=
  (p.offsets pieces).map p.corner.shift

/-- The cell at an offset from the corner, if its coordinates keep below the limit. -/
def cellAt (p : Placement) (d : Cell) : Except BoardError Cell :=
  let c := p.corner.shift d
  if c.x < Cell.limit ∧ c.y < Cell.limit then .ok c else .error .beyondLimit

/-- The cells covered, if all of them keep below the limit. -/
def cells (pieces : List Piece) (p : Placement) : Except BoardError (List Cell) :=
  (p.offsets pieces).mapM p.cellAt

end Placement

namespace Board

/-- Whether the shape covers free cells only when its corner lies on `c`. -/
def fits (b : Board) (shape : Shape) (c : Cell) : Bool :=
  shape.cells.toList.all fun d ↦ b.isFree (c.shift d)

/-- The cells on which the corner of the shape can lie without its bounding box leaving the board,
in ascending order. -/
def corners (b : Board) (shape : Shape) : List Cell :=
  if shape.width ≤ b.width ∧ shape.height ≤ b.height then
    (List.range (b.width - shape.width + 1)).flatMap fun x ↦
      (List.range (b.height - shape.height + 1)).map fun y ↦ ⟨x, y⟩
  else []

/-- **All placements that cover free cells only**, in ascending order. -/
def placements (b : Board) (pieces : List Piece) : List Placement :=
  pieces.zipIdx.flatMap fun (piece, i) ↦
    piece.orientations.zipIdx.flatMap fun (shape, o) ↦
      ((b.corners shape).filter (b.fits shape)).map fun c ↦ ⟨i, o, c.x, c.y⟩

/-- What is logged when the placements are listed. -/
def placementsLine (b : Board) (pieces : List Piece) : LogLine where
  level := .debug
  text :=
    let found := (b.placements pieces).length
    s!"{found} placements of {pieces.length} pieces on a {b.width}x{b.height} board"

end Board

end ExactCover
