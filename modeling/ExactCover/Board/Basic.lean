import ExactCover.Polyomino.Cell

/-!
# Boards

A board is a rectangle some of whose cells are not available.  These come in two kinds, which differ
only when the board is drawn: *walls* lie outside of the playing area, and *marks* are cells that
shall stay uncovered.  All other cells are free.

A board can be far too large to be listed, up to `Cell.limit` columns and rows, so it stores walls
and marks only, and `Board.firstFreeCells` looks at no more cells than it has to.
-/

set_option autoImplicit false

namespace ExactCover

/-- A rectangular board. -/
structure Board where
  /-- The number of columns. -/
  width : Nat
  /-- The number of rows. -/
  height : Nat
  /-- The cells outside of the playing area. -/
  walls : Std.ExtTreeSet Cell
  /-- The cells that shall stay uncovered. -/
  marks : Std.ExtTreeSet Cell
  /-- There is a column. -/
  width_pos : 0 < width
  /-- There is a row. -/
  height_pos : 0 < height
  /-- The columns can be counted by coordinates. -/
  width_lt : width < Cell.limit
  /-- The rows can be counted by coordinates. -/
  height_lt : height < Cell.limit
  /-- Walls lie on the board. -/
  inside_of_mem_walls : ∀ c ∈ walls, c.x < width ∧ c.y < height
  /-- Marks lie on the board. -/
  inside_of_mem_marks : ∀ c ∈ marks, c.x < width ∧ c.y < height

/-- What can go wrong with a board. -/
inductive BoardError where
  /-- The board has no cells. -/
  | noCells (width height : Nat)
  /-- The cell is not on the board. -/
  | outside (cell : Cell) (width height : Nat)
  /-- There is no such piece, or the piece has no such orientation. -/
  | noSuchOrientation (piece orientation : Nat)
  /-- The piece reaches over a cell that is not free, or is covered already. -/
  | notFree (name : Char) (cell : Cell)
  /-- The piece reaches beyond the largest coordinate. -/
  | beyondLimit
deriving DecidableEq

/-- The wording of an error. -/
def BoardError.message : BoardError → String
  | noCells width height => s!"board dimensions must be non-zero, got {width}x{height}"
  | outside c width height => s!"cell ({c.x}, {c.y}) lies outside the {width}x{height} board"
  | noSuchOrientation piece orientation =>
    s!"no orientation {orientation} of piece {piece} to place"
  | notFree name c => s!"piece {name} cannot cover cell ({c.x}, {c.y})"
  | beyondLimit => "attempt to add with overflow"

namespace Board

@[ext]
theorem ext {b b' : Board} (hwidth : b.width = b'.width) (hheight : b.height = b'.height)
    (hwalls : b.walls = b'.walls) (hmarks : b.marks = b'.marks) : b = b' := by
  cases b; cases b'; cases hwidth; cases hheight; cases hwalls; cases hmarks; rfl

/-- Two boards are equal if they have the same size, the same walls and the same marks. -/
instance : DecidableEq Board := fun b b' ↦
  decidable_of_iff
    (b.width = b'.width ∧ b.height = b'.height ∧ b.walls = b'.walls ∧ b.marks = b'.marks)
    ⟨fun h ↦ ext h.1 h.2.1 h.2.2.1 h.2.2.2, fun h ↦ h ▸ ⟨rfl, rfl, rfl, rfl⟩⟩

/-- The board of the given size, without walls and marks. -/
def ofSize (width height : UInt64) : Except BoardError Board :=
  if h : 0 < width.toNat ∧ 0 < height.toNat then
    .ok
      { width := width.toNat
        height := height.toNat
        walls := ∅
        marks := ∅
        width_pos := h.1
        height_pos := h.2
        width_lt := width.toNat_lt
        height_lt := height.toNat_lt
        inside_of_mem_walls := by simp
        inside_of_mem_marks := by simp }
  else .error (.noCells width.toNat height.toNat)

/-- The cell lies on the board. -/
abbrev Contains (b : Board) (c : Cell) : Prop := c.x < b.width ∧ c.y < b.height

theorem contains_of_mem_insert {b : Board} {cells : Std.ExtTreeSet Cell} {c : Cell}
    (hc : b.Contains c) (h : ∀ d ∈ cells, b.Contains d) : ∀ d ∈ cells.insert c, b.Contains d := by
  intro d hd
  rcases Std.ExtTreeSet.mem_insert.1 hd with hcd | hd
  · exact Key.compare_eq_iff.1 hcd ▸ hc
  · exact h d hd

/-- The board with one more wall. -/
def insertWall (b : Board) (c : Cell) (h : b.Contains c) : Board :=
  { b with
    walls := b.walls.insert c
    inside_of_mem_walls := contains_of_mem_insert h b.inside_of_mem_walls }

/-- The board with one more mark. -/
def insertMark (b : Board) (c : Cell) (h : b.Contains c) : Board :=
  { b with
    marks := b.marks.insert c
    inside_of_mem_marks := contains_of_mem_insert h b.inside_of_mem_marks }

/-- Takes a cell out of the playing area, if it lies on the board. -/
def addWall (b : Board) (c : Cell) : Except BoardError Board :=
  if h : b.Contains c then .ok (b.insertWall c h) else .error (.outside c b.width b.height)

/-- Reserves a cell that shall stay uncovered, if it lies on the board. -/
def addMark (b : Board) (c : Cell) : Except BoardError Board :=
  if h : b.Contains c then .ok (b.insertMark c h) else .error (.outside c b.width b.height)

/-! ## Free cells -/

/-- Whether a piece may cover the cell: it lies on the board and is neither a wall nor a mark. -/
def isFree (b : Board) (c : Cell) : Bool :=
  decide (b.Contains c ∧ c ∉ b.walls ∧ c ∉ b.marks)

theorem isFree_iff {b : Board} {c : Cell} :
    b.isFree c = true ↔ b.Contains c ∧ c ∉ b.walls ∧ c ∉ b.marks := by
  simp [isFree]

/-- The cell with the given number in reading order. -/
def cellAt (b : Board) (i : Nat) : Cell := ⟨i % b.width, i / b.width⟩

/-- The free cells in reading order. -/
def freeCells (b : Board) : List Cell :=
  ((List.range (b.width * b.height)).map b.cellAt).filter b.isFree

/-- The first `n` free cells in reading order.  At most `n` cells and all walls and marks come
before the last of them, so no more cells than these are looked at. -/
def firstFreeCells (b : Board) (n : Nat) : List Cell :=
  let looked := min (b.width * b.height) (n + b.walls.size + b.marks.size)
  (((List.range looked).map b.cellAt).filter b.isFree).take n

end Board

end ExactCover
