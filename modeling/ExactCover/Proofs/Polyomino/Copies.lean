import ExactCover.Proofs.Polyomino.Symmetry
import Mathlib.Data.Set.Card

/-!
# Copies of a shape

A set of cells is a copy of a shape if turning and reflecting the shape and then shifting it takes
it to this set (`Shape.IsCopy`).  This says nothing of normal forms, orientations and corners, and
those are what pieces are laid with.  Here is the connection: the copies of a shape are its
orientations with their corners on some cell (`Shape.isCopy_iff`), and the orientation and the cell
can be read off the copy (`Shape.cellsAt_injective`).
-/

set_option autoImplicit false

namespace ExactCover.Shape

variable {s t : Shape} {c d : Cell} {S : Set Cell}

/-- The cells that a shape covers if its corner lies on `c`. -/
def cellsAt (s : Shape) (c : Cell) : Set Cell := c.shift '' {d | d ∈ s.cells}

/-- **The cells in `S` are a copy of the shape**: some number of quarter turns and reflections, one
after another, and a translation take the shape there. -/
def IsCopy (s : Shape) (S : Set Cell) : Prop :=
  ∃ f, Point.Symmetry f ∧ ∃ v : Point,
    Point.ofCell '' S = (fun c ↦ v.shift (f (.ofCell c))) '' {c | c ∈ s.cells}

/-- A shape on a board covers the same points in the plane. -/
theorem ofCell_image_cellsAt (s : Shape) (c : Cell) :
    Point.ofCell '' s.cellsAt c = s.pointsAt (.ofCell c) := by
  rw [cellsAt, pointsAt, Set.image_image]
  simp only [Point.ofCell_shift]

/-- **The cells covered determine the shape and its corner.** -/
theorem cellsAt_injective (h : s.cellsAt c = t.cellsAt d) : s = t ∧ c = d := by
  have hpoints := congrArg (Point.ofCell '' ·) h
  simp only [ofCell_image_cellsAt] at hpoints
  obtain ⟨hst, hcd⟩ := pointsAt_injective hpoints
  exact ⟨hst, Point.ofCell_injective hcd⟩

/-- Where a shape covers cells only, its corner lies on one. -/
theorem exists_ofCell_eq {v : Point} (h : Point.ofCell '' S = s.pointsAt v) :
    ∃ c, Point.ofCell c = v := by
  obtain ⟨c, hc, hcx⟩ := s.touches_left
  obtain ⟨d, hd, hdy⟩ := s.touches_top
  obtain ⟨c', -, hc'⟩ : v.shift (.ofCell c) ∈ Point.ofCell '' S := h ▸ ⟨c, hc, rfl⟩
  obtain ⟨d', -, hd'⟩ : v.shift (.ofCell d) ∈ Point.ofCell '' S := h ▸ ⟨d, hd, rfl⟩
  have hx := congrArg Point.x hc'
  have hy := congrArg Point.y hd'
  simp only [Point.shift, Point.ofCell, hcx, hdy] at hx hy
  refine ⟨⟨v.x.toNat, v.y.toNat⟩, ?_⟩
  rw [Point.ofCell, Point.mk.injEq]
  dsimp only
  omega

theorem isCopy_iff_exists_image :
    s.IsCopy S ↔ ∃ f, Point.Symmetry f ∧ ∃ v : Point,
      Point.ofCell '' S = v.shift '' (f '' s.pointsAt ⟨0, 0⟩) := by
  have hzero (p : Point) : Point.shift ⟨0, 0⟩ p = p := by simp [Point.shift]
  simp only [IsCopy, pointsAt, Set.image_image, hzero]

/-- **The copies of a shape are its orientations with their corners on some cell.** -/
theorem isCopy_iff : s.IsCopy S ↔ ∃ t ∈ s.orientations, ∃ c, S = t.cellsAt c := by
  rw [isCopy_iff_exists_image]
  constructor
  · rintro ⟨f, hf, v, hS⟩
    obtain ⟨t, ht, w, hw⟩ := exists_orientation hf
    rw [hw, shift_image_pointsAt] at hS
    obtain ⟨c, hc⟩ := exists_ofCell_eq hS
    refine ⟨t, ht, c, Point.ofCell_injective.image_injective ?_⟩
    rw [hS, ofCell_image_cellsAt, hc]
  · rintro ⟨t, ht, c, rfl⟩
    obtain ⟨f, hf, w, hw⟩ := mem_orientations_iff_isImage.1 ht
    refine ⟨f, hf, ⟨c.x - w.x, c.y - w.y⟩, ?_⟩
    rw [ofCell_image_cellsAt, hw, shift_image_pointsAt]
    refine congrArg t.pointsAt ?_
    simp [Point.shift, Point.ofCell]

/-- **Quarter turns, reflections and translations**, in any number and order, take the shape to the
cells in `S`. -/
def MovesTo (s : Shape) (S : Set Cell) : Prop :=
  ∃ f, Point.Motion f ∧ Point.ofCell '' S = f '' (Point.ofCell '' {c | c ∈ s.cells})

/-- **A shape moves to its copies.**  It does not matter where in between it is shifted. -/
theorem movesTo_iff_isCopy : s.MovesTo S ↔ s.IsCopy S := by
  simp only [MovesTo, IsCopy, Set.image_image]
  constructor
  · rintro ⟨f, hf, hS⟩
    obtain ⟨g, hg, v, hv⟩ := hf.exists_symmetry
    exact ⟨g, hg, v, by simpa only [hv] using hS⟩
  · rintro ⟨f, hf, v, hS⟩
    exact ⟨_, .shift v hf.motion, hS⟩

/-- A shape and its orientations have the same copies. -/
theorem isCopy_iff_of_mem_orientations (h : t ∈ s.orientations) : t.IsCopy S ↔ s.IsCopy S := by
  rw [isCopy_iff, isCopy_iff, orientations_eq_of_mem h]

/-- **A copy that is moved is a copy**, if it is moved as a symmetry and a translation move it. -/
theorem IsCopy.image {f : Point → Point} (hf : Point.Symmetry f) {v : Point} {g : Cell → Cell}
    (hg : ∀ c ∈ S, Point.ofCell (g c) = v.shift (f (.ofCell c))) (h : s.IsCopy S) :
    s.IsCopy (g '' S) := by
  obtain ⟨f₀, hf₀, v₀, hS⟩ := h
  refine ⟨f ∘ f₀, hf.comp hf₀, v.shift (f v₀), ?_⟩
  calc Point.ofCell '' (g '' S) = (fun p ↦ v.shift (f p)) '' (Point.ofCell '' S) := by
        rw [Set.image_image, Set.image_image]
        exact Set.image_congr hg
    _ = (fun c ↦ (v.shift (f v₀)).shift ((f ∘ f₀) (.ofCell c))) '' {c | c ∈ s.cells} := by
        rw [hS, Set.image_image]
        refine Set.image_congr fun c _ ↦ ?_
        rw [hf.map_shift, Point.shift_shift, Function.comp_apply]

/-! ## Area -/

/-- The cells of a shape are as many as its area says. -/
theorem ncard_cells (s : Shape) : {c | c ∈ s.cells}.ncard = s.area := by
  have hnodup : s.cells.toList.Nodup := Ascending.nodup Std.ExtTreeSet.ordered_toList
  have hcells : {c | c ∈ s.cells} = (s.cells.toList.toFinset : Set Cell) := by
    ext c
    simp
  rw [hcells, Set.ncard_coe_finset, List.toFinset_card_of_nodup hnodup,
    Std.ExtTreeSet.length_toList, area]

/-- A shape covers as many points as its area says. -/
theorem ncard_pointsAt (s : Shape) (v : Point) : (s.pointsAt v).ncard = s.area := by
  have hinjective : Function.Injective fun c ↦ v.shift (.ofCell c) :=
    v.shift_injective.comp Point.ofCell_injective
  rw [pointsAt, Set.ncard_image_of_injective _ hinjective, ncard_cells]

/-- **An image has as many cells as the shape.** -/
theorem IsImage.area_eq {f : Point → Point} (h : IsImage f s t) (hf : Point.Symmetry f) :
    t.area = s.area := by
  obtain ⟨v, hv⟩ := h
  rw [← t.ncard_pointsAt v, ← hv, Set.ncard_image_of_injective _ hf.injective, ncard_pointsAt]

/-- **A copy has as many cells as the shape.** -/
theorem IsCopy.ncard_eq (h : s.IsCopy S) : S.ncard = s.area := by
  obtain ⟨f, hf, v, hS⟩ := h
  have hinjective : Function.Injective fun c ↦ v.shift (f (.ofCell c)) :=
    v.shift_injective.comp (hf.injective.comp Point.ofCell_injective)
  rw [← Set.ncard_image_of_injective S Point.ofCell_injective, hS,
    Set.ncard_image_of_injective _ hinjective, ncard_cells]

end ExactCover.Shape
