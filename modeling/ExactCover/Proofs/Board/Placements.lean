import ExactCover.Board.Placement
import ExactCover.Proofs.Polyomino.Arithmetic
import ExactCover.Proofs.Polyomino.Copies
import Mathlib.Data.List.Nodup

/-!
# The placements on a board

`Board.placements` goes through pieces, orientations and corners, and leaves out corners from which
the bounding box would reach over the edge of the board.  None of them is missed: a shape that
covers free cells only keeps within the board, and so does its bounding box, as it is no larger than
the shape makes it.  So the list holds the placements on free cells and nothing else
(`Board.mem_placements_iff`), in ascending order (`Board.ascending_placements`).

The cells of a placement are those of an orientation of its piece with the corner on a cell.  Hence
every copy of a piece on free cells is covered by a placement of this piece
(`Board.exists_placement`), and by one only (`Placement.eq_of_footprint_eq`).
-/

set_option autoImplicit false

namespace ExactCover

/-! ## The cells of one placement -/

namespace Placement

variable {pieces : List Piece} {p q : Placement} {piece piece' : Piece} {shape shape' : Shape}

theorem laid?_eq_some_iff : p.laid? pieces = some (piece, shape) ↔
    pieces[p.piece]? = some piece ∧ piece.orientations[p.orientation]? = some shape := by
  simp only [laid?, Option.bind_eq_some_iff, Option.map_eq_some_iff, Prod.mk.injEq]
  constructor
  · rintro ⟨piece', hpiece, shape', hshape, rfl, rfl⟩
    exact ⟨hpiece, hshape⟩
  · rintro ⟨hpiece, hshape⟩
    exact ⟨piece, hpiece, shape, hshape, rfl, rfl⟩

theorem footprint_eq (h : p.laid? pieces = some (piece, shape)) :
    p.footprint pieces = shape.cells.toList.map p.corner.shift := by
  rw [footprint, offsets, h]

/-- The cells covered are those of the orientation laid, its corner on that of the placement. -/
theorem setOf_mem_footprint (h : p.laid? pieces = some (piece, shape)) :
    {c | c ∈ p.footprint pieces} = shape.cellsAt p.corner := by
  ext c
  rw [footprint_eq h]
  simp [Shape.cellsAt]

/-- A placement covers no cell twice. -/
theorem nodup_footprint (pieces : List Piece) (p : Placement) : (p.footprint pieces).Nodup := by
  have hinjective : Function.Injective p.corner.shift := by
    rintro ⟨x, y⟩ ⟨x', y'⟩ h
    simpa [Cell.shift] using h
  rw [footprint, offsets]
  refine List.Nodup.map hinjective ?_
  split
  · exact List.nodup_nil
  · exact Ascending.nodup Std.ExtTreeSet.ordered_toList

/-- What is laid is an orientation of the shape of one of the pieces. -/
theorem mem_orientations_of_laid? (h : p.laid? pieces = some (piece, shape)) :
    shape ∈ piece.shape.orientations := by
  rw [← piece.orientations_eq]
  exact List.mem_of_getElem? (laid?_eq_some_iff.1 h).2

/-- **A placement is determined by its piece and the cells that it covers.** -/
theorem eq_of_footprint_eq (hp : p.laid? pieces = some (piece, shape))
    (hq : q.laid? pieces = some (piece', shape')) (hpiece : p.piece = q.piece)
    (hcells : {c | c ∈ p.footprint pieces} = {c | c ∈ q.footprint pieces}) : p = q := by
  rw [setOf_mem_footprint hp, setOf_mem_footprint hq] at hcells
  obtain ⟨rfl, hcorner⟩ := Shape.cellsAt_injective hcells
  obtain ⟨hp₁, hp₂⟩ := laid?_eq_some_iff.1 hp
  obtain ⟨hq₁, hq₂⟩ := laid?_eq_some_iff.1 hq
  obtain rfl : piece = piece' := Option.some_inj.1 (hp₁.symm.trans (hpiece ▸ hq₁))
  -- The same shape has only one index, for the orientations are different.
  have hnodup : piece.orientations.Nodup := piece.orientations_eq ▸ piece.shape.nodup_orientations
  have horientation : p.orientation = q.orientation :=
    (List.getElem?_inj (List.getElem?_eq_some_iff.1 hp₂).1 hnodup).1 (hp₂.trans hq₂.symm)
  cases p; cases q
  simp_all [corner]

end Placement

/-! ## All placements on a board -/

theorem Cell.compare_eq_lt_iff {c d : Cell} :
    compare c d = .lt ↔ c.x < d.x ∨ c.x = d.x ∧ c.y < d.y := by
  show (compare c.x d.x).then (compare c.y d.y) = .lt ↔ _
  rw [Ordering.then_eq_lt, Nat.compare_eq_lt, Nat.compare_eq_lt, Nat.compare_eq_eq]

theorem Placement.compare_eq_lt {i j o o' : Nat} {c d : Cell}
    (h : i < j ∨ i = j ∧ (o < o' ∨ o = o' ∧ compare c d = .lt)) :
    compare (⟨i, o, c.x, c.y⟩ : Placement) ⟨j, o', d.x, d.y⟩ = .lt := by
  show (compare i j).then ((compare o o').then (compare c d)) = .lt
  simpa [Ordering.then_eq_lt, Nat.compare_eq_lt, Nat.compare_eq_eq] using h

namespace Board

variable {b : Board} {pieces : List Piece} {p : Placement} {shape : Shape} {c : Cell}

theorem mem_corners : c ∈ b.corners shape ↔
    c.x + shape.width ≤ b.width ∧ c.y + shape.height ≤ b.height := by
  obtain ⟨x, y⟩ := c
  rw [corners]
  split
  · simp only [List.mem_flatMap, List.mem_map, List.mem_range, Cell.mk.injEq]
    constructor
    · rintro ⟨x', hx, y', hy, rfl, rfl⟩
      omega
    · rintro ⟨hx, hy⟩
      exact ⟨x, by omega, y, by omega, rfl, rfl⟩
  · simp only [List.not_mem_nil, false_iff]
    omega

theorem ascending_corners (b : Board) (shape : Shape) : Ascending (b.corners shape) := by
  rw [corners]
  split
  · refine List.pairwise_flatMap.2 ⟨fun x _ ↦ ?_, ?_⟩
    · rw [List.pairwise_map]
      exact List.pairwise_lt_range.imp fun {y y'} hy ↦
        (Cell.compare_eq_lt_iff (c := ⟨x, y⟩) (d := ⟨x, y'⟩)).2 (.inr ⟨rfl, hy⟩)
    · refine List.pairwise_lt_range.imp ?_
      intro x x' hx c hc d hd
      obtain ⟨y, -, rfl⟩ := List.mem_map.1 hc
      obtain ⟨y', -, rfl⟩ := List.mem_map.1 hd
      exact Cell.compare_eq_lt_iff.2 (.inl hx)
  · exact List.Pairwise.nil

theorem fits_iff : b.fits shape c = true ↔ ∀ d ∈ shape.cells, b.isFree (c.shift d) = true := by
  simp [fits]

/-- A shape on free cells does not reach over the edge. -/
theorem mem_corners_of_fits (h : b.fits shape c = true) : c ∈ b.corners shape := by
  rw [fits_iff] at h
  obtain ⟨d, hd, hdx⟩ := shape.exists_x_add_one_eq_width
  obtain ⟨e, he, hey⟩ := shape.exists_y_add_one_eq_height
  have hx := (isFree_iff.1 (h d hd)).1.1
  have hy := (isFree_iff.1 (h e he)).1.2
  simp only [Cell.shift] at hx hy
  rw [mem_corners]
  omega

/-- **The placements listed are those on free cells.** -/
theorem mem_placements_iff : p ∈ b.placements pieces ↔
    ∃ piece shape, p.laid? pieces = some (piece, shape) ∧ b.fits shape p.corner = true := by
  obtain ⟨i, o, x, y⟩ := p
  simp only [placements, List.mem_flatMap, List.mem_map, List.mem_filter, Prod.exists,
    List.mk_mem_zipIdx_iff_getElem?, Placement.mk.injEq, Placement.laid?_eq_some_iff]
  constructor
  · rintro ⟨piece, _, hpiece, shape, _, hshape, ⟨x', y'⟩, ⟨-, hfits⟩, rfl, rfl, rfl, rfl⟩
    exact ⟨piece, shape, ⟨hpiece, hshape⟩, hfits⟩
  · rintro ⟨piece, shape, ⟨hpiece, hshape⟩, hfits⟩
    exact ⟨piece, i, hpiece, shape, o, hshape, ⟨x, y⟩, ⟨mem_corners_of_fits hfits, hfits⟩,
      rfl, rfl, rfl, rfl⟩

theorem pairwise_zipIdx {α : Type} (l : List α) : l.zipIdx.Pairwise fun a a' ↦ a.2 < a'.2 := by
  rw [← List.pairwise_map (f := Prod.snd) (R := fun i j ↦ i < j), List.zipIdx_map_snd]
  exact List.pairwise_lt_range'

/-- **The placements are listed in ascending order.** -/
theorem ascending_placements (b : Board) (pieces : List Piece) :
    Ascending (b.placements pieces) := by
  rw [placements]
  refine List.pairwise_flatMap.2 ⟨fun (piece, i) _ ↦ ?_, ?_⟩
  · refine List.pairwise_flatMap.2 ⟨fun (shape, o) _ ↦ ?_, ?_⟩
    · rw [List.pairwise_map]
      exact ((b.ascending_corners shape).filter _).imp fun hcorner ↦
        Placement.compare_eq_lt (.inr ⟨rfl, .inr ⟨rfl, hcorner⟩⟩)
    · refine (pairwise_zipIdx _).imp ?_
      intro a a' ho p hp q hq
      obtain ⟨c, -, rfl⟩ := List.mem_map.1 hp
      obtain ⟨d, -, rfl⟩ := List.mem_map.1 hq
      exact Placement.compare_eq_lt (.inr ⟨rfl, .inl ho⟩)
  · refine (pairwise_zipIdx _).imp ?_
    intro a a' hi p hp q hq
    obtain ⟨_, -, hp⟩ := List.mem_flatMap.1 hp
    obtain ⟨_, -, hq⟩ := List.mem_flatMap.1 hq
    obtain ⟨c, -, rfl⟩ := List.mem_map.1 hp
    obtain ⟨d, -, rfl⟩ := List.mem_map.1 hq
    exact Placement.compare_eq_lt (.inl hi)

/-! ## Placements on free cells -/

/-- The piece of a placement is one of the pieces. -/
theorem piece_lt_of_mem_placements (h : p ∈ b.placements pieces) : p.piece < pieces.length := by
  obtain ⟨piece, shape, hlaid, -⟩ := mem_placements_iff.1 h
  exact (List.getElem?_eq_some_iff.1 (Placement.laid?_eq_some_iff.1 hlaid).1).1

theorem isFree_of_mem_footprint (h : p ∈ b.placements pieces) (hc : c ∈ p.footprint pieces) :
    b.isFree c = true := by
  obtain ⟨piece, shape, hlaid, hfits⟩ := mem_placements_iff.1 h
  rw [Placement.footprint_eq hlaid] at hc
  obtain ⟨d, hd, rfl⟩ := List.mem_map.1 hc
  exact fits_iff.1 hfits d (Std.ExtTreeSet.mem_toList.1 hd)

/-- No coordinate of a cell on the board reaches the limit. -/
theorem Contains.lt_limit (h : b.Contains c) : c.x < Cell.limit ∧ c.y < Cell.limit :=
  ⟨h.1.trans b.width_lt, h.2.trans b.height_lt⟩

theorem cellAt_eq_of_isFree {d : Cell} (hfree : b.isFree (p.corner.shift d) = true) :
    p.cellAt d = .ok (p.corner.shift d) :=
  if_pos (isFree_iff.1 hfree).1.lt_limit

/-- **No coordinate of a placement that is listed reaches the limit**, so all of its cells can be
had. -/
theorem cells_eq_footprint (h : p ∈ b.placements pieces) :
    p.cells pieces = .ok (p.footprint pieces) :=
  mapM_eq_pure fun _ hd ↦ cellAt_eq_of_isFree (isFree_of_mem_footprint h (List.mem_map_of_mem hd))

/-- **Every copy of a piece on free cells is covered by a placement of this piece.** -/
theorem exists_placement {i : Nat} {piece : Piece} {S : Set Cell} (hi : pieces[i]? = some piece)
    (hcopy : piece.shape.IsCopy S) (hfree : ∀ c ∈ S, b.isFree c = true) :
    ∃ p ∈ b.placements pieces, p.piece = i ∧ {c | c ∈ p.footprint pieces} = S := by
  obtain ⟨shape, hshape, c, rfl⟩ := Shape.isCopy_iff.1 hcopy
  rw [← piece.orientations_eq] at hshape
  obtain ⟨o, ho⟩ := List.getElem?_of_mem hshape
  have hlaid : (⟨i, o, c.x, c.y⟩ : Placement).laid? pieces = some (piece, shape) :=
    Placement.laid?_eq_some_iff.2 ⟨hi, ho⟩
  refine ⟨⟨i, o, c.x, c.y⟩, mem_placements_iff.2 ⟨piece, shape, hlaid, ?_⟩, rfl, ?_⟩
  · exact fits_iff.2 fun d hd ↦ hfree _ ⟨d, hd, rfl⟩
  · exact Placement.setOf_mem_footprint hlaid

/-- The cells of a placement are a copy of its piece. -/
theorem isCopy_footprint {piece : Piece} (h : p ∈ b.placements pieces)
    (hi : pieces[p.piece]? = some piece) :
    piece.shape.IsCopy {c | c ∈ p.footprint pieces} := by
  obtain ⟨piece', shape, hlaid, -⟩ := mem_placements_iff.1 h
  obtain rfl : piece = piece' :=
    Option.some_inj.1 (hi.symm.trans (Placement.laid?_eq_some_iff.1 hlaid).1)
  rw [Placement.setOf_mem_footprint hlaid]
  exact Shape.isCopy_iff.2 ⟨shape, Placement.mem_orientations_of_laid? hlaid, _, rfl⟩

end Board

end ExactCover
