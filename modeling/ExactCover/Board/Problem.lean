import ExactCover.Board.Placement
import ExactCover.Search.Basic

/-!
# Tiling a board as an exact cover problem

To tile a board is to lay each of a list of pieces exactly once, such that every free cell is
covered exactly once.  So the columns of the problem are the free cells and the pieces, and its rows
are the placements on free cells; each covers its cells and its piece.

Cells come before pieces, and cells in reading order, so that a search which has a choice works
through the board from its top left corner.
-/

set_option autoImplicit false

namespace ExactCover

/-- What a tiling has to do exactly once. -/
inductive Requirement where
  /-- Cover this free cell. -/
  | cell (c : Cell)
  /-- Use the piece at this position of the list. -/
  | piece (index : Nat)
deriving DecidableEq

namespace Requirement

/-- What a requirement is compared by: its kind first, then the row and the column of a cell or the
position of a piece. -/
def rank : Requirement → Nat × Nat × Nat
  | cell c => (0, c.y, c.x)
  | piece index => (1, index, 0)

theorem rank_injective (a b : Requirement) (h : a.rank = b.rank) : a = b := by
  cases a <;> cases b <;> simp only [rank, Prod.mk.injEq] at h
  · obtain ⟨-, hy, hx⟩ := h
    rw [cell.injEq]
    cases ‹Cell›; cases ‹Cell›
    simp_all
  · exact absurd h.1 (by decide)
  · exact absurd h.1 (by decide)
  · rw [h.2.1]

/-- Cells in reading order come before pieces. -/
instance : Key Requirement :=
  Key.ofInjective rank rank_injective
    (fun
      | cell c, cell d => (compare c.y d.y).then (compare c.x d.x)
      | cell _, piece _ => .lt
      | piece _, cell _ => .gt
      | piece i, piece j => compare i j)
    (by
      rintro (_ | _) (_ | _)
      · rfl
      · rfl
      · rfl
      · next i j =>
        change compare i j = (compare i j).then .eq
        cases compare i j <;> rfl)

/-- A cell with its coordinates, the row first, or a piece with its position. -/
instance : Describe Requirement :=
  ⟨fun
    | cell c => s!"Cell \x7b y: {c.y}, x: {c.x} \x7d"
    | piece index => s!"Piece({index})"⟩

end Requirement

/-- What a placement contributes to a tiling: its cells, and the piece used. -/
def Placement.requirements (pieces : List Piece) (p : Placement) : List Requirement :=
  (p.footprint pieces).map .cell ++ [.piece p.piece]

namespace Board

/-- The requirements of a tiling with the given pieces. -/
def requirements (b : Board) (pieces : List Piece) : List Requirement :=
  b.freeCells.map .cell ++ (List.range pieces.length).map .piece

/-- **The problem of tiling the free cells of a board** with every one of the pieces. -/
def problem (b : Board) (pieces : List Piece) :
    Except (TableError Requirement Placement) (Problem Requirement Placement) := do
  let columns ← (b.requirements pieces).foldlM Problem.addColumn ∅
  (b.placements pieces).foldlM (fun p row ↦ p.addRow row (row.requirements pieces)) columns

end Board

end ExactCover
