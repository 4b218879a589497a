import ExactCover.Board.Placement

/-!
# Drawing a tiling

A drawing shows one character for each cell of the board: `*` for a mark, `#` for any other wall,
the name of the piece that covers the cell, or `.` where nothing does.  It is made by laying
placements on the blank board, one after another.  A placement is refused if it reaches over a cell
that is not free, or over one on which something has been drawn.

Whether a cell is covered is read off the drawing, so a piece with the name `.` leaves no trace.

A drawing keeps only the characters that were drawn.  So it can be made of a board of any size, and
nothing is said here about the memory that a grid of all of its cells would take.
-/

set_option autoImplicit false

namespace ExactCover

/-- A drawing of a board. -/
structure Tiling where
  /-- The number of columns. -/
  width : Nat
  /-- The number of rows. -/
  height : Nat
  /-- The characters drawn, by the cells on which they stand. -/
  drawn : Std.ExtTreeMap Cell Char

namespace Tiling

@[ext]
theorem ext {t u : Tiling} (hwidth : t.width = u.width) (hheight : t.height = u.height)
    (hdrawn : t.drawn = u.drawn) : t = u := by
  cases t; cases u; cases hwidth; cases hheight; cases hdrawn; rfl

/-- Two drawings are equal if their sizes are and the same characters are drawn on them. -/
instance : DecidableEq Tiling := fun t u ↦
  decidable_of_iff (t.width = u.width ∧ t.height = u.height ∧ t.drawn = u.drawn)
    ⟨fun h ↦ ext h.1 h.2.1 h.2.2, fun h ↦ h ▸ ⟨rfl, rfl, rfl⟩⟩

/-- What a cell shows when nothing is drawn on it. -/
def blank : Char := '.'

/-- What the cell shows. -/
def charAt (t : Tiling) (c : Cell) : Char := t.drawn.getD c blank

/-- Draws a character on a cell, over what was there. -/
def draw (t : Tiling) (c : Cell) (name : Char) : Tiling :=
  { t with drawn := t.drawn.insert c name }

/-- The drawing, row by row. -/
def rows (t : Tiling) : List (List Char) :=
  (List.range t.height).map fun y ↦ (List.range t.width).map fun x ↦ t.charAt ⟨x, y⟩

/-- The drawing as a text: a line for each row, with a space between neighbours and no line feed
after the last line. -/
def text (t : Tiling) : String :=
  .ofList (['\n'].intercalate (t.rows.map (List.intersperse ' ')))

end Tiling

namespace Board

/-- The drawing of a board on which no piece lies. -/
def blank (b : Board) : Tiling :=
  let empty : Tiling := ⟨b.width, b.height, ∅⟩
  let walled := b.walls.toList.foldl (fun t c ↦ t.draw c '#') empty
  b.marks.toList.foldl (fun t c ↦ t.draw c '*') walled

/-- Draws one cell of a placement of a piece with the given name. -/
def layCell (b : Board) (p : Placement) (name : Char) (t : Tiling) (d : Cell) :
    Except BoardError Tiling := do
  let c ← p.cellAt d
  if b.isFree c && t.charAt c == Tiling.blank then .ok (t.draw c name) else .error (.notFree name c)

/-- Draws a placement, cell by cell. -/
def lay (b : Board) (pieces : List Piece) (t : Tiling) (p : Placement) : Except BoardError Tiling :=
  match p.laid? pieces with
  | none => .error (.noSuchOrientation p.piece p.orientation)
  | some (piece, shape) => shape.cells.toList.foldlM (b.layCell p piece.name) t

/-- **The drawing of a list of placements**, laid on the board in order. -/
def tiling (b : Board) (pieces : List Piece) (ps : List Placement) : Except BoardError Tiling :=
  ps.foldlM (b.lay pieces) b.blank

end Board

end ExactCover
