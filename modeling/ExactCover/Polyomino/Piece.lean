import ExactCover.Polyomino.Shape

/-!
# Pieces

A piece is a shape under a name, the character with which it is drawn.  Its orientations are worked
out once, when the piece is made; that they are those of the shape is part of the type.
-/

set_option autoImplicit false

namespace ExactCover

/-- A named shape, with the orientations in which it can be laid down. -/
structure Piece where
  /-- The character with which the piece is drawn. -/
  name : Char
  /-- The shape it was made from. -/
  shape : Shape
  /-- The different orientations of the shape, ascending. -/
  orientations : List Shape
  /-- The orientations are those of the shape. -/
  orientations_eq : orientations = shape.orientations

namespace Piece

/-- The piece of the given name and shape. -/
def ofShape (name : Char) (shape : Shape) : Piece := ⟨name, shape, shape.orientations, rfl⟩

/-- The piece that covers the given points. -/
def ofPoints (name : Char) (ps : List Point) : Except ShapeError Piece :=
  (Shape.ofPoints ps).map (ofShape name)

end Piece

end ExactCover
