import ExactCover.Board.Basic
import ExactCover.Calendar.Date
import ExactCover.Polyomino.Piece

/-!
# The calendar puzzle

The puzzle is a tray with a cell for each month and for each day of a month, and nine pieces that
leave exactly two of the cells uncovered: those of the date.

```text
Jan Feb Mar Apr May Jun  #
Jul Aug Sep Oct Nov Dec  #
 1   2   3   4   5   6   7
 8   9  10  11  12  13  14
15  16  17  18  19  20  21
22  23  24  25  26  27  28
 #   #  29  30  31   #   #
```
-/

set_option autoImplicit false

namespace ExactCover

/-- Where the month stands on the tray: six months to a row. -/
def Month.cell (m : Month) : Cell := ⟨(m.number - 1) % 6, (m.number - 1) / 6⟩

/-- Where the day stands on the tray: seven days to a row below the months, and the last three in
the middle of the bottom row. -/
def Day.cell (d : Day) : Cell :=
  if d.number ≤ 28 then ⟨(d.number - 1) % 7, 2 + (d.number - 1) / 7⟩ else ⟨d.number - 27, 6⟩

namespace Tray

/-- The number of columns and of rows. -/
def size : Nat := 7

/-- The cells of the square that do not belong to the tray. -/
def walls : List Cell := [⟨6, 0⟩, ⟨6, 1⟩, ⟨0, 6⟩, ⟨1, 6⟩, ⟨5, 6⟩, ⟨6, 6⟩]

/-- The tray without a date. -/
def bare : Board where
  width := size
  height := size
  walls := .ofList walls
  marks := ∅
  width_pos := by decide
  height_pos := by decide
  width_lt := by decide
  height_lt := by decide
  inside_of_mem_walls := fun c hc ↦ by
    have h : ∀ c ∈ walls, c.x < size ∧ c.y < size := by decide
    exact h c (by simpa using hc)
  inside_of_mem_marks := by simp

theorem contains_monthCell (m : Month) : bare.Contains m.cell := by cases m <;> decide

theorem contains_dayCell (d : Day) (m : Month) :
    (bare.insertMark m.cell (contains_monthCell m)).Contains d.cell := by
  obtain ⟨n, hpos, hle⟩ := d
  have hw : (bare.insertMark m.cell (contains_monthCell m)).width = 7 := rfl
  have hh : (bare.insertMark m.cell (contains_monthCell m)).height = 7 := rfl
  rw [Board.Contains, hw, hh]
  by_cases h : n ≤ 28
  · simp only [Day.cell, h, if_true]
    omega
  · simp only [Day.cell, h, if_false]
    omega

/-- **The tray on which the month and the day are left uncovered.** -/
def board (m : Month) (d : Day) : Board :=
  (bare.insertMark m.cell (contains_monthCell m)).insertMark d.cell (contains_dayCell d m)

/-- The same tray, put together cell by cell, each checked to lie on the board. -/
def setUp (m : Month) (d : Day) : Except BoardError Board := do
  let empty ← Board.ofSize (.ofNat size) (.ofNat size)
  let bare ← walls.foldlM Board.addWall empty
  (← bare.addMark m.cell).addMark d.cell

/-- A piece of the puzzle. -/
def piece (name : Char) (ps : List Point) (hps : ps ≠ [] := by decide)
    (hlt : ∀ c ∈ Point.cells ps, c.x < Shape.extentLimit ∧ c.y < Shape.extentLimit := by decide) :
    Piece :=
  .ofShape name (.normalize ps hps hlt)

/-- **The nine pieces**: the square, the cross, the letter C, the long and the short elbow, the
letter T, the square with one cell more, the letter L and a longer one.  They cover 41 cells, as
many as the tray leaves for them. -/
def pieces : List Piece :=
  [piece 'A' [⟨0, 0⟩, ⟨1, 0⟩, ⟨0, 1⟩, ⟨1, 1⟩],
    piece 'B' [⟨1, 0⟩, ⟨0, 1⟩, ⟨1, 1⟩, ⟨2, 1⟩, ⟨1, 2⟩],
    piece 'C' [⟨0, 0⟩, ⟨1, 0⟩, ⟨0, 1⟩, ⟨0, 2⟩, ⟨1, 2⟩],
    piece 'D' [⟨2, 0⟩, ⟨0, 1⟩, ⟨1, 1⟩, ⟨2, 1⟩, ⟨0, 2⟩],
    piece 'E' [⟨1, 0⟩, ⟨0, 1⟩, ⟨1, 1⟩, ⟨0, 2⟩],
    piece 'F' [⟨0, 0⟩, ⟨0, 1⟩, ⟨1, 1⟩, ⟨0, 2⟩],
    piece 'G' [⟨0, 0⟩, ⟨1, 0⟩, ⟨0, 1⟩, ⟨1, 1⟩, ⟨0, 2⟩],
    piece 'H' [⟨0, 0⟩, ⟨1, 0⟩, ⟨0, 1⟩, ⟨0, 2⟩],
    piece 'I' [⟨0, 0⟩, ⟨1, 0⟩, ⟨0, 1⟩, ⟨0, 2⟩, ⟨0, 3⟩]]

end Tray

end ExactCover
