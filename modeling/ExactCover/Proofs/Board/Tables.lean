import ExactCover.Proofs.Board.Drawing
import ExactCover.Proofs.Problem.Assembling

/-!
# The tables of a tiling problem

That the problem of tiling a board can be put together, and with which columns and rows, is known
from `Board.exists_problem`.  A table keeps its keys in ascending order, and here it is shown what
this order is: free cells row by row and then the pieces, as `Board.requirements` lists them, and
the placements as `Board.placements` lists them.  Cells are compared by `x` first where they belong
to a shape, and by `y` first where they are columns; it is the latter that makes a list in reading
order ascending (`Board.ascending_requirements`).

With the keys everything about the tables can be said (`Board.tables_of_problem`), for a column
lists just the rows that cover it.
-/

set_option autoImplicit false

namespace ExactCover

variable {b : Board} {pieces : List Piece} {r : Placement} {q : Requirement}

/-! ## The order of the columns -/

/-- Columns compare as the cells do if `x` and `y` are exchanged. -/
theorem Requirement.compare_cell_eq_lt {c d : Cell} (h : c.y < d.y ∨ c.y = d.y ∧ c.x < d.x) :
    compare (Requirement.cell c) (.cell d) = .lt :=
  (Cell.compare_eq_lt_iff (c := ⟨c.y, c.x⟩) (d := ⟨d.y, d.x⟩)).2 h

namespace Board

/-- A cell that comes later in reading order lies in a later row, or further right in the same. -/
theorem cellAt_before {i j : Nat} (h : i < j) : (b.cellAt i).y < (b.cellAt j).y ∨
    (b.cellAt i).y = (b.cellAt j).y ∧ (b.cellAt i).x < (b.cellAt j).x := by
  show i / b.width < j / b.width ∨ i / b.width = j / b.width ∧ i % b.width < j % b.width
  rcases Nat.lt_or_eq_of_le (Nat.div_le_div_right h.le) with hlt | heq
  · exact .inl hlt
  · have hi := Nat.div_add_mod i b.width
    have hj := Nat.div_add_mod j b.width
    rw [heq] at hi
    exact .inr ⟨heq, by omega⟩

theorem ascending_cells (b : Board) : Ascending (b.freeCells.map Requirement.cell) := by
  refine List.pairwise_map.2 (List.Pairwise.filter _ (List.pairwise_map.2 ?_))
  exact List.pairwise_lt_range.imp fun h ↦ Requirement.compare_cell_eq_lt (cellAt_before h)

theorem ascending_pieces (n : Nat) : Ascending ((List.range n).map Requirement.piece) :=
  List.pairwise_map.2 (List.pairwise_lt_range.imp Nat.compare_eq_lt.2)

/-- **The requirements are listed in ascending order.** -/
theorem ascending_requirements (b : Board) (pieces : List Piece) :
    Ascending (b.requirements pieces) := by
  refine List.pairwise_append.2 ⟨b.ascending_cells, ascending_pieces _, ?_⟩
  intro q hq q' hq'
  obtain ⟨c, -, rfl⟩ := List.mem_map.1 hq
  obtain ⟨i, -, rfl⟩ := List.mem_map.1 hq'
  rfl

/-! ## The entries of the tables -/

namespace Poses

variable {p : Problem Requirement Placement}

theorem keys_table (h : b.Poses pieces p) : p.table.keys = b.requirements pieces :=
  Ascending.ext Std.ExtTreeMap.ordered_keys (b.ascending_requirements pieces) fun q ↦ by
    rw [Std.ExtTreeMap.mem_keys, h.mem_table]

theorem keys_options (h : b.Poses pieces p) : p.options.keys = b.placements pieces :=
  Ascending.ext Std.ExtTreeMap.ordered_keys (b.ascending_placements pieces) fun r ↦ by
    rw [Std.ExtTreeMap.mem_keys, h.mem_options_iff]

/-- The columns of a placement are its cells, in the order of its shape, and its piece. -/
theorem columnsOf?_eq (h : b.Poses pieces p) (hr : r ∈ b.placements pieces) :
    p.columnsOf? r = some ((r.footprint pieces).map .cell ++ [.piece r.piece]) :=
  h.getElem?_options r hr

/-- **A column lists the placements that contribute it.** -/
theorem mem_candidates_iff (h : b.Poses pieces p) {rs : Std.ExtTreeSet Placement}
    (hrs : p.table[q]? = some rs) :
    r ∈ rs ↔ r ∈ b.placements pieces ∧ q ∈ r.requirements pieces := by
  rw [← Table.lists_iff_of_getElem? hrs, h.built.consistent.lists_iff]
  constructor
  · intro hq
    have hr := h.mem_placements r (Options.mem_of_mem_columns hq)
    exact ⟨hr, h.columns_eq hr ▸ hq⟩
  · rintro ⟨hr, hq⟩
    rwa [h.columns_eq hr]

end Poses

/-- **The tables of a tiling problem.**  The problem of tiling a board with any list of pieces can
be put together.  Its columns are the free cells in reading order and, after them, the pieces; its
rows are the placements on free cells.  The columns of a placement are its cells, which can be had,
in the order of its shape, and its piece; and a column lists just the placements that have it.  The
two tables would also have been accepted as they are, with the same result. -/
theorem tables_of_problem (b : Board) (pieces : List Piece) :
    ∃ p, b.problem pieces = .ok p ∧
      p.table.keys = b.freeCells.map .cell ++ (List.range pieces.length).map .piece ∧
      p.options.keys = b.placements pieces ∧
      (∀ r ∈ b.placements pieces, ∃ cells, r.cells pieces = .ok cells ∧
        p.columnsOf? r = some (cells.map .cell ++ [.piece r.piece])) ∧
      (∀ q rs, p.table[q]? = some rs → ∀ r, r ∈ rs ↔
        r ∈ b.placements pieces ∧ ∃ cs, p.columnsOf? r = some cs ∧ q ∈ cs) ∧
      Problem.ofTables p.table p.options = .ok p := by
  obtain ⟨p, hp, h⟩ := b.exists_problem pieces
  refine ⟨p, hp, h.keys_table, h.keys_options,
    fun r hr ↦ ⟨_, cells_eq_footprint hr, h.columnsOf?_eq hr⟩, fun q rs hrs r ↦ ?_,
    h.built.ofTables_eq⟩
  rw [h.mem_candidates_iff hrs]
  refine and_congr_right fun hr ↦ ?_
  rw [h.columnsOf?_eq hr]
  simp [Placement.requirements]

/-- The domino on the strip: four free cells and the piece are the columns, and the second cell is
listed under its first two placements. -/
theorem tables_of_problem_strip : ∃ p, strip.problem [.domino 'A'] = .ok p ∧
    p.table.keys =
      [.cell ⟨1, 0⟩, .cell ⟨2, 0⟩, .cell ⟨3, 0⟩, .cell ⟨4, 0⟩, .piece 0] ∧
    p.options.keys = [⟨0, 1, 1, 0⟩, ⟨0, 1, 2, 0⟩, ⟨0, 1, 3, 0⟩] ∧
    p.columnsOf? ⟨0, 1, 2, 0⟩ = some [.cell ⟨2, 0⟩, .cell ⟨3, 0⟩, .piece 0] := by
  obtain ⟨p, hp, hcolumns, hrows, hcolumnsOf, -, -⟩ := tables_of_problem strip [.domino 'A']
  have hplacements :
      strip.placements [.domino 'A'] = [⟨0, 1, 1, 0⟩, ⟨0, 1, 2, 0⟩, ⟨0, 1, 3, 0⟩] := by
    decide +kernel
  obtain ⟨cells, hcells, hcolumnsOf⟩ := hcolumnsOf ⟨0, 1, 2, 0⟩ (by simp [hplacements])
  have hfootprint : (⟨0, 1, 2, 0⟩ : Placement).cells [.domino 'A'] = .ok [⟨2, 0⟩, ⟨3, 0⟩] := by
    rw [cells_eq_footprint (b := strip) (by simp [hplacements])]
    exact congrArg _ (by decide +kernel)
  obtain rfl := Except.ok.inj (hcells.symm.trans hfootprint)
  exact ⟨p, hp, hcolumns.trans (by decide +kernel), hrows.trans hplacements, hcolumnsOf⟩

end Board

end ExactCover
